import FileWatch.Mask

/-!
# Options of one watch

What a caller says when it asks for a path to be watched.  Asking for no operation at all means
asking for every portable one.
-/

namespace FileWatch

/-- What a caller asks of one watch. -/
structure WatchOptions where
  /-- The operations to report; none means every portable one. -/
  ops : Ops
  /-- Watch a symbolic link itself and not what it leads to. -/
  noFollow : Bool
deriving DecidableEq, Repr

namespace WatchOptions

/-- The given operations, links followed. -/
def new (ops : Ops) : WatchOptions := ⟨ops, false⟩

/-- Every portable operation, links followed. -/
def default : WatchOptions := ⟨.empty, false⟩

/-- The same options, links not followed. -/
def withoutFollowing (o : WatchOptions) : WatchOptions := { o with noFollow := true }

/-- The operations that are really meant. -/
def requested (o : WatchOptions) : Ops := if o.ops.isEmpty then .portable else o.ops

/-- The kernel flags that ask for them. -/
def flags (o : WatchOptions) : Mask :=
  Mask.request o.requested ||| if o.noFollow then Mask.dontFollow else 0

end WatchOptions

end FileWatch
