/-!
# Outlets

An outlet is the sending end of a stream: what was sent and not yet taken, and whether anybody is
still there to take it.  What is sent to nobody is lost.
-/

namespace FileWatch

/-- The sending end of a stream. -/
structure Outlet (α : Type) where
  /-- What was sent and not taken, oldest first. -/
  sent : List α
  /-- Whether the other end is still held by somebody. -/
  listening : Bool
deriving DecidableEq, Repr

namespace Outlet

variable {α : Type}

/-- A stream on which nothing was sent yet. -/
def fresh : Outlet α := ⟨[], true⟩

instance : Inhabited (Outlet α) := ⟨fresh⟩

def send (o : Outlet α) (a : α) : Outlet α :=
  if o.listening then { o with sent := o.sent ++ [a] } else o

/-- The stream after the other end has taken all there is. -/
def taken (o : Outlet α) : Outlet α := { o with sent := [] }

/-- The stream after the other end has gone away. -/
def abandoned (_ : Outlet α) : Outlet α := ⟨[], false⟩

end Outlet

end FileWatch
