import FileWatch.Toml.Value

/-!
# Scanning a text

A scan reads from the front of the text and says how far it got; where it fails, nothing was read.
The offset counts bytes, as spans do.  Repetition is bounded by the length of the text that is
left: a repeated scan that reads something each time cannot run more often than that.
-/

namespace FileWatch.Toml

/-- The text that is left, and how many bytes were read. -/
structure Cursor where
  rest : List Char
  offset : Nat
deriving DecidableEq, Repr

/-- A scan: it takes something off the front of the text, or fails. -/
abbrev Scan (α : Type) := StateT Cursor Option α

namespace Scan

/-- The next character, which stays. -/
def peek? : Scan (Option Char) := fun c => some (c.rest.head?, c)

/-- The byte at which the scan stands. -/
def position : Scan Nat := fun c => some (c.offset, c)

/-- The next character, if it passes a test. -/
def satisfy (p : Char → Bool) : Scan Char := fun c =>
  match c.rest with
  | x :: rest => if p x then some (x, ⟨rest, c.offset + x.utf8Size⟩) else none
  | [] => none

/-- One given character. -/
def char (x : Char) : Scan Unit := do let _ ← satisfy (· == x)

/-- The characters of a given text. -/
def literal (s : String) : Scan Unit := s.toList.forM char

def atEnd : Scan Unit := fun c => if c.rest.isEmpty then some ((), c) else none

/-- A scan that may fail. -/
def optional? {α : Type} (p : Scan α) : Scan (Option α) := (some <$> p) <|> pure none

/-- A scan, again and again until it fails, at most so many times. -/
def upTo {α : Type} : Nat → Scan α → Scan (List α)
  | 0, _ => pure []
  | n + 1, p => do
    match ← optional? p with
    | some a => return a :: (← upTo n p)
    | none => pure []

/-- A scan that reads something, again and again until it fails. -/
def many {α : Type} (p : Scan α) : Scan (List α) := fun c => upTo c.rest.length p c

/-- A scan, exactly so many times. -/
def times {α : Type} : Nat → Scan α → Scan (List α)
  | 0, _ => pure []
  | n + 1, p => do
    let a ← p
    return a :: (← times n p)

/-- One or more scans with a separator between two. -/
def separated {α : Type} (p : Scan α) (separator : Scan Unit) : Scan (List α) := do
  let first ← p
  let others ← many (do separator; p)
  return first :: others

/-- What a scan read, and where it stood. -/
def located {α : Type} (p : Scan α) : Scan (α × Span) := do
  let start ← position
  let a ← p
  let stop ← position
  return (a, ⟨start, stop⟩)

/-- The longest stretch of characters that pass a test. -/
def run (p : Char → Bool) : Scan (List Char) := many (satisfy p)

end Scan

/-! ## Blanks, line ends and comments -/

/-- A blank within a line. -/
def isBlank (c : Char) : Bool := c == ' ' || c == '\t'

def isBeyondAscii (c : Char) : Bool := 0x80 ≤ c.toNat

/-- A character that may stand in a comment. -/
def isCommentChar (c : Char) : Bool :=
  c == '\t' || (0x20 ≤ c.toNat && c.toNat ≤ 0x7E) || isBeyondAscii c

open Scan

def blanks : Scan Unit := do let _ ← run isBlank

/-- The end of a line that another follows. -/
def newline : Scan Unit := char '\n' <|> literal "\r\n"

/-- A comment up to the end of its line. -/
def comment : Scan Unit := do char '#'; let _ ← run isCommentChar

/-- What may follow a statement on its line. -/
def lineRest : Scan Unit := do
  blanks
  let _ ← optional? comment
  newline <|> atEnd

/-- Blanks, line ends and comments between the items of an array. -/
def gap : Scan Unit := do
  let _ ← many ((do let _ ← satisfy isBlank) <|> newline <|> (do comment; newline))

end FileWatch.Toml
