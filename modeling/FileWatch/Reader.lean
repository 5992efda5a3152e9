import FileWatch.Outlet
import FileWatch.Record.Cursor
import FileWatch.WatchTable

/-!
# The reader of records

One reader takes records off the kernel's queue in order.  From each it makes at most one event: the
handle is resolved to a path, the mask to operations, and what would mislead the receiver is
dropped.

* A record that says records were lost becomes a failure on the stream of errors.
* A record that says a watch is gone purges the table, and that confirms a removal.
* A record that says the watched thing itself moved ends its watch, for its recorded name is
  stale; the record is still reported.
* A record that says the watched thing itself was deleted is dropped when the watched directory
  above reports the same deletion.
* An event about a path that is not there any more is dropped, unless it says so.

The reader goes on when nobody listens: removals still have to be confirmed.  It ends when it is
told to close, which it notices when it has something to hand over, or when it is woken.
-/

namespace FileWatch

/-- An event that should not reach the receiver: its path is gone, and it does not say so. -/
def Event.isStale (e : Event) (pathExists : Path → Bool) : Bool :=
  !e.ops.intersects (.remove ∪ .rename) && !pathExists e.path

/-- The event that a record stands for.  There is none if the watch is not known, or if the record
says nothing that operations can express. -/
def Record.event? (r : Record) (t : WatchTable) : Option Event :=
  match t.resolve? r.handle with
  | none => none
  | some watched =>
    if r.mask.ops.isEmpty then none
    else
      let path := match r.name with
        | some name => watched.join name
        | none => watched
      some ⟨path, r.mask.ops⟩

/-- Whether the path of a handle lies in a watched directory that reports deletions. -/
def WatchTable.parentReportsDelete (t : WatchTable) (h : Handle) : Bool :=
  match ((t.resolve? h).bind Path.parent?).bind t.entry? with
  | some w => w.flags.has Mask.delete
  | none => false

/-- The state of the reader and of what it shares with callers. -/
structure Reader where
  /-- The table of watches. -/
  table : WatchTable
  /-- Whether the descriptor of the kernel's queue is open. -/
  descriptorOpen : Bool
  /-- Whether the reader has not ended. -/
  running : Bool
  /-- Whether closing was asked for. -/
  closing : Bool
  /-- The stream of events. -/
  events : Outlet Event
  /-- The stream of errors. -/
  errors : Outlet Failure
  /-- The watches the kernel was asked to drop and has not yet been told of, oldest first. -/
  drops : List Handle

namespace Reader

/-- A reader at its start. -/
def fresh : Reader :=
  { table := .empty, descriptorOpen := true, running := true, closing := false
    events := .fresh, errors := .fresh, drops := [] }

instance : Inhabited Reader := ⟨fresh⟩

/-- Hand an event over.  A reader that is told to close gives up; otherwise it goes on, also when
nobody listens. -/
def deliver (r : Reader) (e : Event) : Bool × Reader :=
  if r.closing then (false, r) else (true, { r with events := r.events.send e })

/-- Hand a failure over, in the same way. -/
def report (r : Reader) (f : Failure) : Bool × Reader :=
  if r.closing then (false, r) else (true, { r with errors := r.errors.send f })

/-- Ask the kernel to drop a watch.  That fails only when the descriptor is gone, and the failure is
reported. -/
def drop (r : Reader) (h : Handle) : Bool × Reader :=
  if r.descriptorOpen then (true, { r with drops := r.drops ++ [h] }) else r.report .closed

/-- The last stage of a record: make the event, and hand it over unless it is stale. -/
def announce (pathExists : Path → Bool) (r : Reader) (rec : Record) : Bool × Reader :=
  match rec.event? r.table with
  | none => (true, r)
  | some e => if e.isStale pathExists then (true, r) else r.deliver e

/-- Handle one record; whether to go on. -/
def dispatch (pathExists : Path → Bool) (r : Reader) (rec : Record) : Bool × Reader :=
  if rec.mask.has Mask.queueOverflow then r.report .overflow
  else if rec.mask.has Mask.ignored then (true, { r with table := (r.table.purge rec.handle).2 })
  else
    let (go, r) :=
      if rec.mask.has Mask.moveSelf && rec.name.isNone then r.drop rec.handle else (true, r)
    if !go then (false, r)
    else if rec.mask.has Mask.deleteSelf && r.table.parentReportsDelete rec.handle then (true, r)
    else r.announce pathExists rec

/-- Handle the records of a read in order.  The first bad one is reported and ends the read, since
what follows it cannot be trusted. -/
def dispatchAll (pathExists : Path → Bool) :
    Reader → List (Except Malformation Record) → Bool × Reader
  | r, [] => (true, r)
  | r, .error m :: _ => r.report (.malformed m)
  | r, .ok rec :: rest =>
    let (go, r) := r.dispatch pathExists rec
    if go then dispatchAll pathExists r rest else (false, r)

/-- Handle the bytes of one read; whether to go on. -/
def read (pathExists : Path → Bool) (r : Reader) (bytes : Bytes) : Bool × Reader :=
  if bytes.isEmpty then r.report (.malformed .emptyRead)
  else if bytes.length < recordHeaderLength then r.report (.malformed (.shortRead bytes.length))
  else r.dispatchAll pathExists (recordsOf bytes)

/-- The end of the reader: nobody can confirm a removal any more, so the descriptor is released and
every waiter with it. -/
def stop (r : Reader) : Reader :=
  { r with running := false, descriptorOpen := false, table := r.table.clear }

/-- Wake the reader, which then ends.  One that has ended cannot be woken. -/
def wake (r : Reader) : Except Failure Unit × Reader :=
  (if r.running then .ok () else .error .unheardWake, r.stop)

/-- One turn of a running reader: a read, and the end if that told it to end. -/
def turn (pathExists : Path → Bool) (r : Reader) (bytes : Bytes) : Reader :=
  let (go, r) := r.read pathExists bytes
  if go then r else r.stop

end Reader

end FileWatch
