import FileWatch.Errno
import FileWatch.Record

/-!
# The kernel's side of watching

A notifier holds the watches that the kernel keeps for one descriptor and the queue of records that
wait to be read.  A watch belongs to a thing on disk and not to a name: two names of one thing get
one handle.  A handle is never given out twice; when there are no more of them, nothing new can
be watched.

The last record of a handle is the one that says its watch is gone.  The queue has a limit.  What does
not fit is lost, that last record included, and one record without a handle says so.
-/

namespace FileWatch

/-- A thing on disk, whatever names lead to it. -/
structure Inode where
  id : Nat
deriving DecidableEq, Repr, Inhabited

/-- A watch as the kernel keeps it. -/
structure KernelWatch where
  handle : Handle
  /-- The watched thing. -/
  inode : Inode
  /-- What is to be reported. -/
  mask : Mask
deriving DecidableEq, Repr

/-- What the kernel can have to tell its watches. -/
inductive Notice where
  /-- Something happened to a thing, or to an entry of it that has a name. -/
  | change (inode : Inode) (what : Mask) (name : Option Bytes)
  /-- A thing is gone for good. -/
  | death (inode : Inode)
deriving DecidableEq, Repr

/-- The watches behind one descriptor and the records that wait to be read. -/
structure Notifier where
  /-- How many records the queue holds. -/
  limit : Nat
  /-- The live watches, oldest first. -/
  watches : List KernelWatch
  /-- How many handles were given out so far. -/
  granted : Nat
  /-- The records that wait, oldest first. -/
  queue : List Record
deriving DecidableEq, Repr

namespace Notifier

/-- A notifier without watches. -/
def fresh (limit : Nat) : Notifier := ⟨limit, [], 0, []⟩

/-- How many records a queue holds where nothing else is said. -/
def usualLimit : Nat := 16384

instance : Inhabited Notifier := ⟨fresh usualLimit⟩

def handleLimit : Nat := 2147483647

def watchOf? (n : Notifier) (i : Inode) : Option KernelWatch :=
  n.watches.find? fun w => w.inode = i

/-- Whether a handle stands for a live watch. -/
def isLive (n : Notifier) (h : Handle) : Bool := n.watches.any fun w => w.handle = h

/-- The record that says records were lost. -/
def lost : Record := ⟨⟨-1⟩, Mask.queueOverflow, 0, none⟩

/-- Queue a record.  In a full queue its place is taken by the record of the loss, once. -/
def post (n : Notifier) (r : Record) : Notifier :=
  if n.queue.length < n.limit then { n with queue := n.queue ++ [r] }
  else if lost ∈ n.queue then n
  else { n with queue := n.queue ++ [lost] }

/-- Watch a thing.  The mask of a watch that is there is replaced, or widened if the flags say so. -/
def grant (n : Notifier) (i : Inode) (flags : Mask) : Except Errno Handle × Notifier :=
  let wanted := flags &&& Mask.happenings
  match n.watchOf? i with
  | some w =>
    let mask := if flags.has Mask.maskAdd then w.mask ||| wanted else wanted
    (.ok w.handle,
      { n with watches := n.watches.map fun v => if v.inode = i then { v with mask := mask } else v })
  | none =>
    if n.granted < handleLimit then
      let h : Handle := ⟨Int32.ofNat (n.granted + 1)⟩
      (.ok h, { n with watches := n.watches ++ [⟨h, i, wanted⟩], granted := n.granted + 1 })
    else (.error .noSpace, n)

/-- Drop a watch, which its last record confirms; whether it was live. -/
def revoke (n : Notifier) (h : Handle) : Bool × Notifier :=
  if n.isLive h then
    (true, { n with watches := n.watches.filter fun w => w.handle ≠ h }.post ⟨h, Mask.ignored, 0, none⟩)
  else (false, n)

/-- Queue what a notice says to the watch it is about, if there is one that wants to know. -/
def notify (n : Notifier) : Notice → Notifier
  | .change i what name =>
    match n.watchOf? i with
    | some w => if w.mask.has what then n.post ⟨w.handle, what, 0, name⟩ else n
    | none => n
  | .death i =>
    match n.watchOf? i with
    | some w => (n.revoke w.handle).2
    | none => n

/-- The longest run of whole records that fits into a buffer, and the records behind it. -/
def batch (capacity : Nat) : List Record → List Record × List Record
  | [] => ([], [])
  | r :: rest =>
    let size := r.kernelBytes.length
    if size ≤ capacity then
      let (taken, left) := batch (capacity - size) rest
      (r :: taken, left)
    else ([], r :: rest)

def read (n : Notifier) (capacity : Nat) : Bytes × Notifier :=
  let (taken, left) := batch capacity n.queue
  (taken.flatMap Record.kernelBytes, { n with queue := left })

end Notifier

end FileWatch
