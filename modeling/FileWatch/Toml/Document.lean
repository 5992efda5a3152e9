import FileWatch.Toml.Moment
import FileWatch.Toml.Quotation

/-!
# Reading a document

Reading has two halves.  The *grammar* turns the text into sections: the pairs before the first
header, then each header with the pairs under it.  *Assembly* puts the sections into one tree and
refuses what the grammar cannot see: a name given twice, a table opened twice, a value that is
extended as if it were a table.

A text that either half refuses is no document; how it is refused is not recorded.
-/

namespace FileWatch.Toml

open Scan

/-! ## Grammar -/

/-- A key and a value, and where the value stands. -/
structure Pair where
  path : List Key
  value : Value
  span : Span

/-- Items between brackets; a comma may stand behind the last. -/
def arrayOf (item : Scan Value) : Scan Value := do
  char '['
  let items ← optional? (separated (do gap; let v ← item; gap; return v) (char ','))
  let _ ← if items.isSome then optional? (char ',') else pure none
  gap
  char ']'
  return .array (items.getD [])

/-- A key, an equals sign and a value. -/
def pairOf (value : Scan Value) : Scan Pair := do
  let path ← key
  char '='
  blanks
  let (v, span) ← located value
  return ⟨path, v, span⟩

/-- Pairs between braces, on one line and without a comma behind the last. -/
def bracedPairs (value : Scan Value) : Scan (List Pair) := do
  char '\x7b'
  let pairs ← optional? (separated (do let p ← pairOf value; blanks; return p) (char ','))
  blanks
  char '\x7d'
  return pairs.getD []

/-! ## Assembly -/

def entryNamed? (es : Entries) (name : String) : Option (Key × Option Span × Value) :=
  es.find? fun e => e.1.name == name

/-- The entries with the one of a given name replaced, in its place. -/
def putEntry (es : Entries) (name : String) (place : Option Span) (v : Value) : Entries :=
  es.map fun e => if e.1.name == name then (e.1, place, v) else e

/-- Go down a path of names and change the entries found there.  Missing tables are made on the
way: dotted ones for a dotted key, implied ones for a header.  A dotted key may not pass through a
table that was opened by a header; a header may pass through any table.  Of the tables of one
`[[name]]` both enter the last. -/
def descend (form : TableForm) :
    List Key → (TableForm → Entries → Option Entries) → TableForm → Entries → Option Entries
  | [], change, here, es => change here es
  | k :: path, change, _, es =>
    match entryNamed? es k.name with
    | none => do
      let inner ← descend form path change form []
      return es ++ [(k, none, .table form inner)]
    | some (_, place, .table own inner) =>
      if own = .inline ∨ (form = .dotted ∧ own = .header) then none
      else do
        let inner ← descend form path change own inner
        return putEntry es k.name place (.table own inner)
    | some (_, place, .tables items) =>
      match items.getLast? with
      | some (.table own inner) => do
        let inner ← descend form path change own inner
        return putEntry es k.name place (.tables (items.dropLast ++ [.table own inner]))
      | _ => none
    | some _ => none

/-- Add a pair to a table.  A dotted key adds to tables that dotted keys made and to no others. -/
def addPair (es : Entries) (p : Pair) : Option Entries := do
  let name ← p.path.getLast?
  let above := p.path.dropLast
  descend .dotted above
    (fun form es =>
      if (above.isEmpty ∨ form = .dotted) ∧ (entryNamed? es name.name).isNone then
        some (es ++ [(name, some p.span, p.value)])
      else none)
    .header es

/-- Pairs between braces as a table.  None of its tables can be added to later. -/
def inlineTable (pairs : List Pair) : Option Value := do
  return .table .inline (← pairs.foldlM addPair [])

/-- The line above a section: `[path]`, or `[[path]]` for one more of several tables. -/
structure Header where
  path : List Key
  repeated : Bool
  span : Span

/-- A header and the pairs under it. -/
structure Section where
  header : Header
  pairs : List Pair

/-- Where a section stands: from its header to the end of its last value. -/
def Section.span (s : Section) : Span :=
  ⟨s.header.span.start, (s.pairs.getLast?.map (·.span.stop)).getD s.header.span.stop⟩

/-- Add one more table to those of a name, at the level where the name stands. -/
def addRepeated (s : Section) (name : Key) (es : Entries) : Option Entries := do
  let table := Value.table .header (← s.pairs.foldlM addPair [])
  match entryNamed? es name.name with
  | none => return es ++ [(name, some s.span, .tables [table])]
  | some (_, place, .tables items) =>
    let start := (place.map (·.start)).getD s.span.start
    return putEntry es name.name (some ⟨start, s.span.stop⟩) (.tables (items ++ [table]))
  | some _ => none

/-- Open a table, at the level where its name stands.  One that a longer header implied moves to
the end. -/
def addOpened (s : Section) (name : Key) (es : Entries) : Option Entries := do
  let before ← match entryNamed? es name.name with
    | none => some []
    | some (_, _, .table .implied inner) => some inner
    | some _ => none
  let table := Value.table .header (← s.pairs.foldlM addPair before)
  return es.filter (fun e => !(e.1.name == name.name)) ++ [(name, some s.span, table)]

def addSection (es : Entries) (s : Section) : Option Entries := do
  let name ← s.header.path.getLast?
  let add := if s.header.repeated then addRepeated s name else addOpened s name
  descend .implied s.header.path.dropLast (fun _ es => add es) .header es

/-! ## Grammar of documents -/

/-- A value, with so many levels of brackets and braces at most. -/
def value : Nat → Scan Value
  | 0 => failure
  | depth + 1 => do
    match ← peek? with
    | some '"' | some '\'' => return .string (← string)
    | some '[' => guard (depth ≠ 0); arrayOf (value depth)
    | some '\x7b' => do
      guard (depth ≠ 0)
      let pairs ← bracedPairs (value depth)
      match inlineTable pairs with
      | some v => return v
      | none => failure
    | some 't' => literal "true"; return .boolean true
    | some 'f' => literal "false"; return .boolean false
    | _ =>
      (do return .moment (← verbatim moment))
      <|> (do return .float (← float))
      <|> (do return .integer (← integer))

def pair : Scan Pair := do
  let p ← pairOf (value depthLimit)
  lineRest
  return p

def header : Scan Header := do
  let (path, span) ← located (do char '['; let k ← key; char ']'; return k)
  lineRest
  return ⟨path, false, span⟩

/-- A header of one of several tables. -/
def repeatedHeader : Scan Header := do
  let (path, span) ← located (do literal "[["; let k ← key; literal "]]"; return k)
  lineRest
  return ⟨path, true, span⟩

/-- A line that says nothing. -/
def idle : Scan Unit := newline <|> (do comment; newline <|> atEnd)

/-- The lines between two statements. -/
def idleLines : Scan Unit := do
  blanks
  let _ ← many (do idle; blanks)

/-- The pairs under a header, with the idle lines around them. -/
def pairs : Scan (List Pair) := do
  idleLines
  many (do let p ← pair; idleLines; return p)

/-- A section. -/
def headed : Scan Section := do
  let h ← repeatedHeader <|> header
  return ⟨h, ← pairs⟩

/-- A whole text: an optional byte-order mark, the pairs before the first header, the sections. -/
def sections : Scan (List Pair × List Section) := do
  let _ ← optional? (char '\uFEFF')
  let top ← pairs
  let ss ← many headed
  atEnd
  return (top, ss)

/-- The document that a text holds, if it holds one. -/
def read? (text : String) : Option Entries := do
  let ((top, ss), _) ← sections ⟨text.toList, 0⟩
  ss.foldlM addSection (← top.foldlM addPair [])

end FileWatch.Toml
