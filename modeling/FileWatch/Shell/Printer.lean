import FileWatch.Failure

/-!
# Printing two streams

The printer takes what comes from two streams, events and failures, in the order in which it comes, and
goes on until both have ended.  Events are numbered, but only those that are wanted; failures always
show.
-/

namespace FileWatch

/-- What comes out of the two streams. -/
inductive Signal where
  | event (e : Event)
  | failure (f : Failure)
  | eventsEnded
  | failuresEnded
deriving DecidableEq, Repr

/-- A printed line. -/
inductive Line where
  | event (number : Nat) (e : Event)
  | failure (f : Failure)
deriving DecidableEq, Repr

/-- The word that stands before a failure, red and bold. -/
def Line.alarm : String := "\x1b[1m\x1b[31mERROR\x1b[39m\x1b[0m"

/-- The text of a line. -/
def Line.shown : Line → String
  | .event n e => "".pushn ' ' (3 - (toString n).length) ++ toString n ++ " " ++ e.shown
  | .failure f => alarm ++ ": " ++ f.message

/-- What was printed so far. -/
structure Printer where
  /-- How many events were printed. -/
  seen : Nat
  eventsOpen : Bool
  failuresOpen : Bool
  /-- The printed lines, oldest first. -/
  lines : List Line
deriving DecidableEq, Repr

namespace Printer

/-- A printer at its start. -/
def fresh : Printer := ⟨0, true, true, []⟩

instance : Inhabited Printer := ⟨fresh⟩

/-- Whether both streams have ended. -/
def isDone (p : Printer) : Bool := !p.eventsOpen && !p.failuresOpen

/-- Take what comes next. -/
def take (keep : Event → Bool) (p : Printer) : Signal → Printer
  | .event e =>
    if keep e then { p with seen := p.seen + 1, lines := p.lines ++ [.event (p.seen + 1) e] } else p
  | .failure f => { p with lines := p.lines ++ [.failure f] }
  | .eventsEnded => { p with eventsOpen := false }
  | .failuresEnded => { p with failuresOpen := false }

/-- Take what comes until both streams have ended. -/
def run (keep : Event → Bool) (p : Printer) : List Signal → Printer
  | [] => p
  | s :: rest => if p.isDone then p else run keep (p.take keep s) rest

end Printer

end FileWatch
