import FileWatch.Proofs.Record.KernelBytes
import FileWatch.Watcher

/-!
# Callers, a reader and a kernel, step by step

A watcher is used by many callers at once, while its reader works on its own and the kernel adds to
its queue.  Here each of them is cut into its steps, and what they share is a `Watcher`.

A step is what happens in one go: one access to the table, to the descriptor, to a flag, to a stream or
to a lock.  Two locks are held over several steps.  A registration holds the table from the moment it
looks up what to ask the kernel for until it has stored the answer (`Call.holdsTable`), and `close`
holds the phase from its first step to its last (`Call.holdsPhase`).  Whoever needs one of them
waits until nobody holds it.  A removal sleeps until something is taken out of the table; `sleepers`
are the calls that do.

`fire` makes the next step of one party, if that party can make one; which party it is, and what the
world outside does, is a `Move`.  Nothing is said about the order of moves, so what holds after every
list of moves (`Reachable`) holds for every schedule.

Where the schedule alone does not decide what comes next, the move does.  A reader that has something
to hand over while closing was asked for may hand it over or give up.  It may end at any time when it
has nothing to do: it was woken, or its descriptor failed.  Waking it may fail.
-/

namespace FileWatch

namespace Watcher

def withTable (w : Watcher) (t : WatchTable) : Watcher :=
  { w with reader := { w.reader with table := t } }

def withReader (w : Watcher) (r : Reader) : Watcher := { w with reader := r }

/-- The descriptor is closed, and with it the kernel forgets what it knew. -/
def releaseDescriptor (w : Watcher) : Watcher :=
  { w with kernel := w.kernel.release, reader := { w.reader with descriptorOpen := false } }

end Watcher

namespace Interplay

/-! ## Calls -/

/-- How far a call has come that first asks whether the watcher is open.  It looks twice: whether the
reader runs, and then whether `close` was called. -/
inductive Progress (σ ρ : Type) where
  | arriving
  | heard
  | inside (stage : σ)
  | returned (result : ρ)

/-- The next step of a call that has not been let in. -/
def Progress.knock {σ ρ : Type} (w : Watcher) (phaseFree : Bool) (entry : σ) (refusal : ρ) :
    Progress σ ρ → Option (Progress σ ρ)
  | .arriving => some (if w.reader.running then .heard else .returned refusal)
  | .heard =>
    if phaseFree then some (if w.phase = .running then .inside entry else .returned refusal)
    else none
  | _ => none

/-- A registration, once it was let in.  From `asking` on it holds the table. -/
inductive Adding where
  | admitted
  | asking (wanted : Mask) (known : Bool)
  | told (wanted : Mask) (granted : Except Failure Handle)

/-- A removal, once it was let in. -/
inductive Removing where
  | admitted
  | found (handle : Handle)
  | waiting (handle : Handle)

/-- How far a `close` has come, and whether the reader could be woken.  From `entered` on it holds the
phase. -/
inductive Closing where
  | arriving
  | entered
  | announced
  | woken (result : Except Failure Unit)
  | joined (result : Except Failure Unit)
  | released (result : Except Failure Unit)
  | cleared (result : Except Failure Unit)
  | returned (result : Except Failure Unit)

/-- A call, and how far it has come. -/
inductive Call where
  | add (path : Path) (options : WatchOptions) (progress : Progress Adding (Except Failure Unit))
  | remove (path : Path) (progress : Progress Removing (Except Failure Unit))
  | list (progress : Progress Unit (List Path))
  | close (progress : Closing)

namespace Call

def holdsTable : Call → Bool
  | add _ _ (.inside (.asking _ _)) => true
  | add _ _ (.inside (.told _ _)) => true
  | _ => false

def holdsPhase : Call → Bool
  | close .arriving => false
  | close (.returned _) => false
  | close _ => true
  | _ => false

/-- The handle that the kernel has granted to a registration and that is not in the table yet. -/
def held? : Call → Option Handle
  | add _ _ (.inside (.told _ (.ok h))) => some h
  | _ => none

def isFresh : Call → Bool
  | add _ _ .arriving => true
  | remove _ .arriving => true
  | list .arriving => true
  | close .arriving => true
  | _ => false

def hasReturned : Call → Bool
  | add _ _ (.returned _) => true
  | remove _ (.returned _) => true
  | list (.returned _) => true
  | close (.returned _) => true
  | _ => false

end Call

/-! ## The reader -/

/-- Where the reader is.  A record goes through `taken`, `settled`, `nested` and `single` until it is
translated; then its event is in hand. -/
inductive Reading where
  | polling
  | taken (record : Record)
  /-- A failure is to be handed over, before the record is gone on with. -/
  | reporting (failure : Failure) (rest : Option Record)
  /-- If the watched thing has moved, its watch is being dropped. -/
  | settled (record : Record)
  /-- The watched thing was deleted, and lay in this directory. -/
  | nested (record : Record) (above : Path)
  /-- The record is not one that the directory above tells as well. -/
  | single (record : Record)
  | translated (record : Record) (event : Event)
  | handing (record : Record) (event : Event)
  | leaving
  | stopping
  | released
  | cleared
  | gone

namespace Reading

def isGone : Reading → Bool
  | gone => true
  | _ => false

/-- The record that the reader is not done with. -/
def record? : Reading → Option Record
  | taken r => some r
  | reporting _ rest => rest
  | settled r => some r
  | nested r _ => some r
  | single r => some r
  | translated r _ => some r
  | handing r _ => some r
  | _ => none

end Reading

end Interplay

open Interplay in
/-- A watcher and everybody who has to do with it. -/
structure Interplay where
  watcher : Watcher
  reading : Reading
  /-- What the reader has read and not yet taken up. -/
  batch : List (Except Malformation Record)
  /-- All calls that were ever made, oldest first. -/
  calls : List Call
  /-- The calls that sleep until the table loses something. -/
  sleepers : List Nat

namespace Interplay

/-- A watcher that nobody has used yet, on any tree of files. -/
def start (settings : Settings) (tree : Tree) (limit : Nat) : Interplay :=
  ⟨.start settings ⟨tree, .fresh limit⟩, .polling, [], [], []⟩

section Views

variable (s : Interplay)

def table : WatchTable := s.watcher.reader.table

def notifier : Notifier := s.watcher.kernel.notifier

def descriptorOpen : Bool := s.watcher.reader.descriptorOpen

/-- The records that were read and are not done with, in order. -/
def taken : List Record := s.reading.record?.toList ++ s.batch.filterMap Except.toOption

/-- The records that the reader is not done with, in order. -/
def pending : List Record := s.taken ++ s.notifier.queue

/-- The handles that the kernel has granted and that are not in the table yet. -/
def held : List Handle := s.calls.filterMap Call.held?

def tableFree : Bool := s.calls.all fun c => !c.holdsTable

def phaseFree : Bool := s.calls.all fun c => !c.holdsPhase

def allReturned : Bool := s.calls.all Call.hasReturned

/-- The same with a call at another place. -/
def put (i : Nat) (c : Call) : Interplay := { s with calls := s.calls.set i c }

/-- The same with another watcher. -/
def withWatcher (w : Watcher) : Interplay := { s with watcher := w }

/-- The same with another table from which something may have been taken: whoever sleeps is woken. -/
def purged (t : WatchTable) : Interplay :=
  { s with watcher := s.watcher.withTable t, sleepers := [] }

end Views

/-! ## The steps of a call -/

section Calls

variable (s : Interplay) (i : Nat)

def fireAdd (p : Path) (o : WatchOptions) :
    Progress Adding (Except Failure Unit) → Option Interplay
  | .inside .admitted =>
    if s.tableFree then
      let (wanted, known) := s.table.demand p.normalize o.flags
      some (s.put i (.add p o (.inside (.asking wanted known))))
    else none
  | .inside (.asking wanted known) =>
    let (granted, kernel) :=
      s.watcher.arm p.normalize (if known then wanted ||| Mask.maskAdd else wanted)
    some ((s.withWatcher { s.watcher with kernel }).put i (.add p o (.inside (.told wanted granted))))
  | .inside (.told _ (.error f)) => some (s.put i (.add p o (.returned (.error f))))
  | .inside (.told wanted (.ok h)) =>
    let table := s.table.insert p.normalize ⟨h, wanted⟩
    some ((s.withWatcher (s.watcher.withTable table)).put i (.add p o (.returned (.ok ()))))
  | outside => (outside.knock s.watcher s.phaseFree .admitted (.error .closed)).map fun progress =>
      s.put i (.add p o progress)

/-- A registration that the kernel has no watch for, whatever the path leads to. -/
def fireRefusal (e : Errno) (p : Path) (o : WatchOptions) :
    Progress Adding (Except Failure Unit) → Option Interplay
  | .inside (.asking wanted _) =>
    if s.descriptorOpen && !p.normalize.bytes.contains 0 then
      some (s.put i (.add p o
        (.inside (.told wanted (.error (.registration p.normalize (.errno e)))))))
    else none
  | _ => none

def fireRemove (p : Path) : Progress Removing (Except Failure Unit) → Option Interplay
  | .inside .admitted =>
    if s.tableFree then
      some (s.put i (.remove p (match s.table.handleOf? p.normalize with
        | none => .returned (.error (.notWatched p.normalize))
        | some h => .inside (.found h))))
    else none
  | .inside (.found h) =>
    let (result, watcher) := s.watcher.release h
    some ((s.withWatcher watcher).put i (.remove p (match result with
      | .error f => .returned (.error f)
      | .ok () => .inside (.waiting h))))
  | .inside (.waiting h) =>
    if s.tableFree && !s.sleepers.contains i then
      match s.table.wait p.normalize h false with
      | .confirmed => some (s.put i (.remove p (.returned (.ok ()))))
      | _ => some { s with sleepers := i :: s.sleepers }
    else none
  | outside => (outside.knock s.watcher s.phaseFree .admitted (.error .closed)).map fun progress =>
      s.put i (.remove p progress)

/-- The time of a removal that sleeps is up. -/
def fireTimeout (p : Path) : Progress Removing (Except Failure Unit) → Option Interplay
  | .inside (.waiting h) =>
    if s.tableFree && s.sleepers.contains i && s.watcher.settings.removeTimeout?.isSome then
      let s := match s.table.wait p.normalize h true with
        | .forced table => s.purged table
        | _ => { s with sleepers := s.sleepers.erase i }
      some (s.put i (.remove p (.returned (.ok ()))))
    else none
  | _ => none

def fireList : Progress Unit (List Path) → Option Interplay
  | .inside () => if s.tableFree then some (s.put i (.list (.returned s.table.paths))) else none
  | outside => (outside.knock s.watcher s.phaseFree () []).map fun progress =>
      s.put i (.list progress)

def fireClose : Closing → Option Interplay
  | .arriving =>
    if s.phaseFree then
      some (s.put i (.close (if s.watcher.phase = .closed then .returned (.ok ()) else .entered)))
    else none
  | .entered =>
    let watcher := s.watcher.withReader { s.watcher.reader with closing := true }
    some ((s.withWatcher watcher).put i (.close .announced))
  | .announced =>
    some (s.put i (.close (.woken
      (if s.reading.isGone then .error .unheardWake else .ok ()))))
  | .woken (.ok ()) =>
    if s.reading.isGone then some (s.put i (.close (.joined (.ok ())))) else none
  | .woken (.error f) => some (s.put i (.close (.joined (.error f))))
  | .joined result =>
    some ((s.withWatcher s.watcher.releaseDescriptor).put i (.close (.released result)))
  | .released result =>
    if s.tableFree then some ((s.purged s.table.clear).put i (.close (.cleared result))) else none
  | .cleared result =>
    some ((s.withWatcher { s.watcher with phase := .closed }).put i (.close (.returned result)))
  | .returned _ => none

def fireCall : Option Interplay :=
  match s.calls[i]? with
  | some (.add p o progress) => s.fireAdd i p o progress
  | some (.remove p progress) => s.fireRemove i p progress
  | some (.list progress) => s.fireList i progress
  | some (.close progress) => s.fireClose i progress
  | none => none

end Calls

/-! ## The steps of the reader -/

section Reader

variable (s : Interplay)

/-- The reader at another place. -/
def turnTo (reading : Reading) : Interplay := { s with reading }

/-- The reader takes up the next record, or reads. -/
def fetch : Option Interplay :=
  match s.batch with
  | .ok r :: rest => some { s with reading := .taken r, batch := rest }
  | .error m :: _ => some { s with reading := .reporting (.malformed m) none, batch := [] }
  | [] =>
    if s.descriptorOpen && !s.notifier.queue.isEmpty then
      let (bytes, kernel) := s.watcher.kernel.read s.watcher.settings.readBufferLength
      some { s with watcher := { s.watcher with kernel }, batch := Reader.itemsOf bytes }
    else none

/-- The first step with a record: what it says about the queue, or about its watch. -/
def fireTaken (r : Record) : Option Interplay :=
  if r.mask.has Mask.queueOverflow then some (s.turnTo (.reporting .overflow none))
  else if r.mask.has Mask.ignored then
    if s.tableFree then some ((s.purged (s.table.purge r.handle).2).turnTo .polling) else none
  else if r.mask.has Mask.moveSelf && r.name.isNone then
    match s.watcher.release r.handle with
    | (.ok (), watcher) => some ((s.withWatcher watcher).turnTo (.settled r))
    | (.error f, _) => some (s.turnTo (.reporting f (some r)))
  else some (s.turnTo (.settled r))

/-- Whether something can be handed over on a stream: always, but for a stream that nobody holds when
closing was asked for. -/
def canHand (listening : Bool) : Bool := !s.watcher.reader.closing || listening

def fireReader : Option Interplay :=
  let reader := s.watcher.reader
  match s.reading with
  | .polling => s.fetch
  | .taken r => s.fireTaken r
  | .reporting f rest =>
    if s.canHand reader.errors.listening then
      some ((s.withWatcher (s.watcher.withReader { reader with errors := reader.errors.send f })).turnTo
        (match rest with
          | some r => .settled r
          | none => .polling))
    else none
  | .settled r =>
    if r.mask.has Mask.deleteSelf then
      if s.tableFree then
        some (s.turnTo (match (s.table.resolve? r.handle).bind Path.parent? with
          | some above => .nested r above
          | none => .single r))
      else none
    else some (s.turnTo (.single r))
  | .nested r above =>
    if s.tableFree then
      some (s.turnTo (match s.table.entry? above with
        | some w => if w.flags.has Mask.delete then .polling else .single r
        | none => .single r))
    else none
  | .single r =>
    if s.tableFree then
      some (s.turnTo (match r.event? s.table with
        | some e => .translated r e
        | none => .polling))
    else none
  | .translated r e =>
    some (s.turnTo (if e.isStale s.watcher.kernel.tree.pathExists then .polling else .handing r e))
  | .handing _ e =>
    if s.canHand reader.events.listening then
      some ((s.withWatcher (s.watcher.withReader { reader with events := reader.events.send e })).turnTo
        .polling)
    else none
  | .leaving => some ((s.withWatcher (s.watcher.withReader { reader with running := false })).turnTo
      .stopping)
  | .stopping => some ((s.withWatcher s.watcher.releaseDescriptor).turnTo .released)
  | .released => if s.tableFree then some ((s.purged s.table.clear).turnTo .cleared) else none
  | .cleared => some (s.turnTo .gone)
  | .gone => none

/-- The reader has something to hand over, and leaves because closing was asked for. -/
def fireGiveUp : Option Interplay :=
  if s.watcher.reader.closing then
    match s.reading with
    | .reporting _ _ => some { s with reading := .leaving, batch := [] }
    | .handing _ _ => some { s with reading := .leaving, batch := [] }
    | _ => none
  else none

def isIdle : Bool :=
  match s.reading with
  | .polling => s.batch.isEmpty
  | _ => false

end Reader

/-! ## Moves -/

/-- Who makes the next step, and what the world outside does. -/
inductive Move where
  /-- A call is made. -/
  | begin (call : Call)
  /-- A call makes its next step. -/
  | call (i : Nat)
  /-- The kernel has no watch for a registration. -/
  | refuse (i : Nat) (reason : Errno)
  /-- The time of a removal is up. -/
  | timeout (i : Nat)
  /-- The reader cannot be woken. -/
  | unheard (i : Nat) (failure : Failure)
  /-- The reader makes its next step. -/
  | reader
  | giveUp
  /-- The reader's wait fails, or its read. -/
  | fault (failure : Failure)
  | leave
  /-- The kernel queues a record of a live watch. -/
  | queue (record : Record)
  /-- A watched thing is gone, and its watch with it. -/
  | death (handle : Handle)
  /-- The tree of files changes. -/
  | disk (tree : Tree)
  /-- The receivers take what there is, or go away. -/
  | takeEvents
  | takeErrors
  | abandonEvents
  | abandonErrors

def fire (s : Interplay) : Move → Option Interplay
  | .begin c => if c.isFresh then some { s with calls := s.calls ++ [c] } else none
  | .call i => s.fireCall i
  | .refuse i e => match s.calls[i]? with
    | some (.add p o progress) => s.fireRefusal i e p o progress
    | _ => none
  | .timeout i => match s.calls[i]? with
    | some (.remove p progress) => s.fireTimeout i p progress
    | _ => none
  | .unheard i f => match s.calls[i]? with
    | some (.close .announced) => some (s.put i (.close (.woken (.error f))))
    | _ => none
  | .reader => s.fireReader
  | .giveUp => s.fireGiveUp
  | .fault f => if s.isIdle then some (s.turnTo (.reporting f none)) else none
  | .leave => if s.isIdle then some (s.turnTo .leaving) else none
  | .queue r =>
    if r.WellFormed ∧ s.notifier.isLive r.handle ∧ ¬ r.mask.has Mask.ignored then
      some (s.withWatcher { s.watcher with
        kernel := { s.watcher.kernel with notifier := s.notifier.post r } })
    else none
  | .death h =>
    some (s.withWatcher { s.watcher with kernel := (s.watcher.kernel.unwatch h).2 })
  | .disk tree =>
    some (s.withWatcher { s.watcher with kernel := { s.watcher.kernel with tree } })
  | .takeEvents => some (s.withWatcher (s.watcher.withReader
      { s.watcher.reader with events := s.watcher.reader.events.taken }))
  | .takeErrors => some (s.withWatcher (s.watcher.withReader
      { s.watcher.reader with errors := s.watcher.reader.errors.taken }))
  | .abandonEvents => some (s.withWatcher (s.watcher.withReader
      { s.watcher.reader with events := s.watcher.reader.events.abandoned }))
  | .abandonErrors => some (s.withWatcher (s.watcher.withReader
      { s.watcher.reader with errors := s.watcher.reader.errors.abandoned }))

/-- The state after some moves, if they can be made one after the other. -/
def run : Interplay → List Move → Option Interplay
  | s, [] => some s
  | s, m :: rest => (s.fire m).bind fun t => t.run rest

/-- One state leads to another by moves of a certain kind. -/
inductive Leads (kind : Interplay → Move → Prop) (s : Interplay) : Interplay → Prop
  | refl : Leads kind s s
  | step {t u : Interplay} {m : Move} (before : Leads kind s t) (allowed : kind t m)
      (fired : t.fire m = some u) : Leads kind s u

/-- Moves of any kind. -/
def Anything : Interplay → Move → Prop := fun _ _ => True

/-- A state that a watcher can be in. -/
def Reachable (s : Interplay) : Prop :=
  ∃ settings tree limit, Leads Anything (start settings tree limit) s

end Interplay

end FileWatch
