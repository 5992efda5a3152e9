import FileWatch.Kernel.Act

/-!
# The kernel

What the watcher rests on: a tree of files, and a notifier that tells of its changes.  The two meet in
two places.  A watch is asked for by path, and the path is walked once, when the watch is asked for; from
then on the watch stays with the thing it was led to.  And an act on the tree leaves notices, which
the notifier queues for the watches they are about.
-/

namespace FileWatch

/-- A tree of files and the notifier on it. -/
structure Kernel where
  tree : Tree
  notifier : Notifier

namespace Kernel

/-- A kernel on a tree, with nothing watched. -/
def ofTree (t : Tree) : Kernel := ⟨t, .fresh Notifier.usualLimit⟩

instance : Inhabited Kernel := ⟨ofTree .fresh⟩

/-- Watch what a path leads to.  Flags without any meaning are refused before the path is looked at. -/
def watch (k : Kernel) (p : Path) (flags : Mask) : Except Errno Handle × Kernel :=
  if !flags.has Mask.known then (.error .invalid, k)
  else match k.tree.find (!flags.has Mask.dontFollow) p with
    | .error e => (.error e, k)
    | .ok i =>
      let (granted, n) := k.notifier.grant i flags
      (granted, { k with notifier := n })

/-- Drop a watch; whether it was live. -/
def unwatch (k : Kernel) (h : Handle) : Bool × Kernel :=
  let (live, n) := k.notifier.revoke h
  (live, { k with notifier := n })

/-- What a read of the queue brings. -/
def read (k : Kernel) (capacity : Nat) : Bytes × Kernel :=
  let (bytes, n) := k.notifier.read capacity
  (bytes, { k with notifier := n })

/-- Let something happen on disk. -/
def act (k : Kernel) (a : Act) : Except Errno Kernel :=
  match a.perform k.tree with
  | .error e => .error e
  | .ok (t, notices) => .ok ⟨t, notices.foldl Notifier.notify k.notifier⟩

/-- Forget all watches and all records, as when their descriptor is closed. -/
def release (k : Kernel) : Kernel := { k with notifier := .fresh k.notifier.limit }

end Kernel

end FileWatch
