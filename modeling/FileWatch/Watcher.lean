import FileWatch.Debounce.Worker
import FileWatch.Kernel
import FileWatch.Reader
import FileWatch.WatchOptions

/-!
# The watcher

A watcher is a table of watches between two parties.  Callers register and remove paths; the reader
takes the kernel's records, makes events of them, and purges the watches that the kernel says are
gone.  They meet in the table and nowhere else.

A call is made of steps that nothing comes between, and each has its definition here:

* `ensureOpen` looks whether the watcher is still open;
* `enroll` holds the table while the kernel is asked for a watch and the answer is stored, so that no
  record of a watch is read before the watch is known;
* `release` asks the kernel to drop a watch, and `await` is a look of the caller at the table, which
  it repeats until the reader has seen the kernel's confirmation;
* `turn` is one read of the reader.

`add`, `remove` and `close` are the calls of one caller with nobody else around; between them the
reader catches up (`settle`).
-/

namespace FileWatch

/-- Whether `close` was called. -/
inductive Phase where
  | running
  | closed
deriving DecidableEq, Repr

/-- A watcher and the kernel it rests on. -/
structure Watcher where
  settings : Settings
  phase : Phase
  kernel : Kernel
  reader : Reader

namespace Watcher

/-- A watcher that watches nothing yet. -/
def start (s : Settings) (k : Kernel) : Watcher := ⟨s, .running, k, .fresh⟩

def table (w : Watcher) : WatchTable := w.reader.table

/-! ## The reader -/

/-- One read, if anything is there to be read.  What the reader wants to be dropped is dropped
then; the kernel's confirmation comes with a later read. -/
def turn (w : Watcher) : Watcher :=
  if w.reader.running && !w.kernel.notifier.queue.isEmpty then
    let (bytes, kernel) := w.kernel.read w.settings.readBufferLength
    let reader := w.reader.turn kernel.tree.pathExists bytes
    { w with
      kernel := reader.drops.foldl (fun k h => (k.unwatch h).2) kernel
      reader := { reader with drops := [] } }
  else w

def turns : Nat → Watcher → Watcher
  | 0, w => w
  | n + 1, w => turns n w.turn

/-- Let the reader catch up.  A turn takes at least one record, and a watch can add one, the last of
its own; so there are never more turns with something to do than records and watches. -/
def settle (w : Watcher) : Watcher :=
  w.turns (w.kernel.notifier.queue.length + w.kernel.notifier.watches.length)

/-! ## The steps of calls -/

/-- A call is refused once the watcher is closed, or has lost its reader. -/
def ensureOpen (w : Watcher) : Except Failure Unit :=
  if w.reader.running && w.phase = .running then .ok () else .error .closed

/-- Ask the kernel for a watch.  A path that cannot be handed to the kernel is refused before the
descriptor is looked at. -/
def arm (w : Watcher) (p : Path) (flags : Mask) : Except Failure Handle × Kernel :=
  match p.bytes.findIdx? (· == 0) with
  | some n => (.error (.registration p (.nulByte n)), w.kernel)
  | none =>
    if w.reader.descriptorOpen then
      match w.kernel.watch p flags with
      | (.error e, k) => (.error (.registration p (.errno e)), k)
      | (.ok h, k) => (.ok h, k)
    else (.error .closed, w.kernel)

/-- Register a path, or widen its registration, while nobody else touches the table. -/
def enroll (w : Watcher) (p : Path) (flags : Mask) : Except Failure Unit × Watcher :=
  let (wanted, known) := w.table.demand p flags
  let (granted, kernel) := w.arm p (if known then wanted ||| Mask.maskAdd else wanted)
  let (result, table) := w.table.register p flags fun _ _ => granted
  (result.map fun _ => (), { w with kernel, reader := { w.reader with table } })

/-- Ask the kernel to drop a watch.  A watch that the kernel has dropped already is no failure: its last
record is on the way, or has been read. -/
def release (w : Watcher) (h : Handle) : Except Failure Unit × Watcher :=
  if w.reader.descriptorOpen then (.ok (), { w with kernel := (w.kernel.unwatch h).2 })
  else (.error .closed, w)

/-- Wait until a handle no longer stands for a path; whether the wait ends.  It always does when the
settings limit it. -/
def await (w : Watcher) (p : Path) (h : Handle) : Bool × Watcher :=
  match w.table.wait p h w.settings.removeTimeout?.isSome with
  | .confirmed => (true, w)
  | .forced table => (true, { w with reader := { w.reader with table } })
  | .asleep => (false, w)

/-! ## Calls -/

/-- Watch a path. -/
def add (w : Watcher) (p : Path) (o : WatchOptions) : Except Failure Unit × Watcher :=
  match w.ensureOpen with
  | .error f => (.error f, w)
  | .ok () => w.enroll p.normalize o.flags

/-- Stop watching a path.  There is no answer if the caller waits for a confirmation that never
comes. -/
def remove (w : Watcher) (p : Path) : Option (Except Failure Unit) × Watcher :=
  match w.ensureOpen with
  | .error f => (some (.error f), w)
  | .ok () =>
    match w.table.handleOf? p.normalize with
    | none => (some (.error (.notWatched p.normalize)), w)
    | some h =>
      match w.release h with
      | (.error f, w) => (some (.error f), w)
      | (.ok (), w) =>
        let (returned, w) := w.settle.await p.normalize h
        (if returned then some (.ok ()) else none, w)

/-- Stop watching everything and end both streams.  A second call changes nothing. -/
def close (w : Watcher) : Except Failure Unit × Watcher :=
  match w.phase with
  | .closed => (.ok (), w)
  | .running =>
    let (woken, reader) := { w.reader with closing := true }.wake
    (woken, { w with phase := .closed, kernel := w.kernel.release, reader })

/-- Whether operations can be reported. -/
def supports (_ : Watcher) (_ : Ops) : Bool := true

/-- How the end of a write is found out. -/
def completion (w : Watcher) : Completion :=
  if w.supports .closeWrite then .native else .debounce w.settings.debounceWindow

/-- The watched paths in order; none once the watcher is closed. -/
def watchList (w : Watcher) : List Path :=
  match w.ensureOpen with
  | .error _ => []
  | .ok () => w.table.paths

/-- Whether the streams of events and errors have ended. -/
def streamsEnded (w : Watcher) : Bool := !w.reader.running

/-! ## What goes on outside -/

/-- Let something happen on disk, and the reader see it.  An act that fails is not seen. -/
def act (w : Watcher) (a : Act) : Watcher :=
  match w.kernel.act a with
  | .error _ => w
  | .ok kernel => { w with kernel }.settle

def takeEvents (w : Watcher) : List Event × Watcher :=
  (w.reader.events.sent, { w with reader := { w.reader with events := w.reader.events.taken } })

end Watcher

end FileWatch
