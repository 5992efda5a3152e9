import FileWatch.Decimal.Shortest
import FileWatch.Text.Quoted
import FileWatch.Toml.Value

/-!
# Values that do not fit

A complaint about a value quotes its line and underlines it there.  Lines and columns count from
one, columns in characters; the underline has one mark for each byte of the value that is on the
line, and at least one.
-/

namespace FileWatch.Toml

/-- What a complaint says was found. -/
inductive Found where
  | string (text : String)
  | boolean (value : Bool)
  | float (value : Binary64)
  /-- An integer, of the right type and out of range. -/
  | integer (value : Int)
  | sequence
  /-- A table, a date or a time. -/
  | map
deriving DecidableEq, Repr

/-- What kind of number was wanted. -/
inductive Wanted where
  /-- A count of things in memory. -/
  | size
  /-- A count of anything else. -/
  | count
deriving DecidableEq, Repr

/-- A line of a text with a stretch of it underlined. -/
structure Excerpt where
  /-- The number of the line. -/
  line : Nat
  /-- The column where the stretch begins. -/
  column : Nat
  /-- The line. -/
  text : String
  /-- How many marks underline it. -/
  width : Nat
deriving DecidableEq, Repr

/-- A value that does not fit, and where it stands. -/
structure Misfit where
  excerpt : Excerpt
  found : Found
  wanted : Wanted
deriving DecidableEq, Repr

/-- The characters whose bytes lie before an offset. -/
def charsBefore : List Char → Nat → List Char
  | [], _ => []
  | c :: rest, offset => if offset = 0 then [] else c :: charsBefore rest (offset - c.utf8Size)

/-- How many bytes characters take up. -/
def byteLength (cs : List Char) : Nat := cs.foldl (fun n c => n + c.utf8Size) 0

/-- The line on which a span begins, with the span underlined. -/
def Excerpt.ofSpan (text : String) (span : Span) : Excerpt :=
  let before := charsBefore text.toList span.start
  let line := before.count '\n'
  let column := (before.reverse.takeWhile (· != '\n')).length
  let shown := (text.toList.splitOn '\n').getD line []
  { line := line + 1
    column := column + 1
    text := String.ofList shown
    width := max 1 (min (span.stop - span.start) (byteLength shown - column)) }

/-- What was found, in words. -/
def Found.shown : Found → String
  | .string s => "string " ++ Text.quoted s
  | .boolean b => "boolean \x60" ++ (if b then "true" else "false") ++ "\x60"
  | .float x => "floating point \x60" ++ x.shown ++ "\x60"
  | .integer n => "integer \x60" ++ (if n < 0 then "-" ++ toString n.natAbs else toString n.natAbs)
      ++ "\x60"
  | .sequence => "sequence"
  | .map => "map"

/-- What was wanted, in words. -/
def Wanted.shown : Wanted → String
  | .size => "usize"
  | .count => "u64"

/-- Why the value does not fit. -/
def Misfit.reason (m : Misfit) : String :=
  let verdict := match m.found with
    | .integer _ => "invalid value: "
    | _ => "invalid type: "
  verdict ++ m.found.shown ++ ", expected " ++ m.wanted.shown

/-- So many blanks. -/
def spaces (n : Nat) : String := String.ofList (List.replicate n ' ')

/-- The complaint, over several lines. -/
def Misfit.shown (m : Misfit) : String :=
  let number := toString m.excerpt.line
  let gutter := spaces (number.length + 1) ++ "|"
  "TOML parse error at line " ++ number ++ ", column " ++ toString m.excerpt.column ++ "\n"
    ++ gutter ++ "\n"
    ++ number ++ " | " ++ m.excerpt.text ++ "\n"
    ++ gutter ++ spaces m.excerpt.column
    ++ String.ofList (List.replicate m.excerpt.width '^') ++ "\n"
    ++ m.reason ++ "\n"

end FileWatch.Toml
