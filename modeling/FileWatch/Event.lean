import FileWatch.Ops
import FileWatch.Path
import FileWatch.Text.Quoted

/-!
# Events

An event says that something happened to a path.  Its printed form is one line: the path stands in
quotation marks (`Text.quoted`'s rules, so no file name can break the line or fake the end of the
quotation), then the operations.
-/

namespace FileWatch

namespace Path

/-- The path as a text for messages; bytes that are no text show as replacement characters. -/
def shown (p : Path) : String := Utf8.lossy p.bytes

/-- The path between quotation marks, under a choice of characters to spell as numbers. -/
def quotedBy (spelled : Char → Bool) (p : Path) : String :=
  String.ofList (Quoted.bytes spelled p.bytes)

/-- The path between quotation marks, safe to print. -/
def quoted (p : Path) : String := p.quotedBy Text.isSpelled

end Path

/-- A change to a file or directory. -/
structure Event where
  /-- What changed. -/
  path : Path
  /-- How it changed. -/
  ops : Ops
deriving DecidableEq, Repr, Inhabited

namespace Event

/-- Events agree when their paths name the same and their operations are the same. -/
instance : BEq Event := ⟨fun a b => a.path == b.path && a.ops == b.ops⟩

/-- Whether the event carries all of the given operations. -/
def has (e : Event) (ops : Ops) : Bool := e.ops.contains ops

/-- The event on one line, under a choice of characters to spell as numbers. -/
def shownBy (spelled : Char → Bool) (e : Event) : String :=
  e.path.quotedBy spelled ++ ": " ++ e.ops.shown

/-- The event on one line. -/
def shown (e : Event) : String := e.shownBy Text.isSpelled

/-- The event in full, unknown operations included. -/
def described (e : Event) : String :=
  "Event \x7b path: " ++ e.path.quoted ++ ", op: " ++ e.ops.described ++ " \x7d"

end Event

end FileWatch
