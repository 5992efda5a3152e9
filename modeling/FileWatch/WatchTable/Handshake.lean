import FileWatch.WatchTable

/-!
# The handshake of a removal

A caller that removes a watch waits until its handle no longer stands for its path.  It looks at the
table, and while the pair is there it sleeps.  A purge and a clearing of the table wake every sleeper,
which then looks again; so does a waiter that gives up.  A registration wakes nobody.

Everything that happens to the table happens in one go: `Call.apply` for the calls of others, `look`
and `expire` for the waiters.
-/

namespace FileWatch

namespace WatchTable

/-- What others do to the table. -/
inductive Call where
  /-- A registration, with the answer of the kernel. -/
  | register (path : Path) (flags : Mask) (granted : Except Failure Handle)
  | purge (handle : Handle)
  | clear

namespace Call

/-- The table after a call. -/
def apply (t : WatchTable) : Call → WatchTable
  | register p flags granted => (t.register p flags fun _ _ => granted).2
  | purge h => (t.purge h).2
  | clear => t.clear

/-- Whether a call wakes those who wait. -/
def wakes : Call → Bool
  | register _ _ _ => false
  | purge _ => true
  | clear => true

end Call

end WatchTable

/-- Where a waiter is. -/
inductive Waiting where
  /-- It sleeps until it is woken. -/
  | asleep
  /-- It is about to look at the table. -/
  | awake
  /-- It has returned; whether somebody else ended the watch. -/
  | returned (confirmed : Bool)
deriving DecidableEq, Repr

/-- A caller that waits until a handle no longer stands for a path. -/
structure Waiter where
  path : Path
  handle : Handle
  /-- Whether it waits for a limited time only. -/
  limited : Bool
  state : Waiting
deriving DecidableEq, Repr

namespace Waiter

/-- A waiter that has not looked yet. -/
def fresh (p : Path) (h : Handle) (limited : Bool) : Waiter := ⟨p, h, limited, .awake⟩

/-- Wake a waiter, if it sleeps. -/
def wake (w : Waiter) : Waiter := if w.state = .asleep then { w with state := .awake } else w

end Waiter

/-- A table and those who wait for something to leave it. -/
structure Handshake where
  table : WatchTable
  waiters : List Waiter

namespace Handshake

/-- A table that nobody waits for. -/
def ofTable (t : WatchTable) : Handshake := ⟨t, []⟩

def wakeAll (s : Handshake) : Handshake := { s with waiters := s.waiters.map Waiter.wake }

/-- A caller starts to wait. -/
def enter (s : Handshake) (w : Waiter) : Handshake := { s with waiters := s.waiters ++ [w] }

/-- Somebody else does something to the table. -/
def call (s : Handshake) (c : WatchTable.Call) : Handshake :=
  let after := { s with table := c.apply s.table }
  if c.wakes then after.wakeAll else after

/-- Put a waiter into another state. -/
def move (s : Handshake) (i : Nat) (state : Waiting) : Handshake :=
  { s with waiters := s.waiters.modify i fun w => { w with state } }

/-- A waiter that is awake looks at the table: it returns, or goes to sleep. -/
def look (s : Handshake) (i : Nat) : Handshake :=
  match s.waiters[i]? with
  | some w =>
    if w.state = .awake then
      match s.table.wait w.path w.handle false with
      | .confirmed => s.move i (.returned true)
      | _ => s.move i .asleep
    else s
  | none => s

/-- The time of a sleeping waiter is up.  If the pair is still there, the waiter purges it, wakes the
others and returns; otherwise it has been confirmed. -/
def expire (s : Handshake) (i : Nat) : Handshake :=
  match s.waiters[i]? with
  | some w =>
    if w.limited && w.state = .asleep then
      match s.table.wait w.path w.handle true with
      | .forced table => ({ s with table }.move i (.returned false)).wakeAll
      | _ => s.move i (.returned true)
    else s
  | none => s

/-- What a waiter has returned. -/
def result? (s : Handshake) (i : Nat) : Option Bool :=
  s.waiters[i]?.bind fun w => match w.state with
    | .returned confirmed => some confirmed
    | _ => none

end Handshake

end FileWatch
