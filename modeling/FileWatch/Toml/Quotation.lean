import FileWatch.Toml.Number

/-!
# Strings

There are four kinds: with escapes or literal, on one line or over several.  A string over several
lines drops a line end right behind its opening marks, reads every line end as one line feed, and
may hold its own mark up to twice in a row, also right before the closing marks.
-/

namespace FileWatch.Toml

open Scan

/-- A character that stands for itself in a string with the given mark and, in one with escapes,
is not a backslash. -/
def isPlain (mark : Char) (escapes : Bool) (c : Char) : Bool :=
  isCommentChar c && c != mark && !(escapes && c == '\\')

/-- The character of a given number, unless there is none. -/
def codePoint (n : Nat) : Scan Char :=
  if n < 0xD800 ∨ (0xDFFF < n ∧ n ≤ 0x10FFFF) then pure (Char.ofNat n) else failure

/-- So many hexadecimal digits, read as a number. -/
def hexNumber (width : Nat) : Scan Nat := do
  return numeral 16 (← times width (satisfy (isDigitOf 16)))

/-- What stands behind the backslash of an escape. -/
def escaped : Scan Char := do
  match ← satisfy (fun _ => true) with
  | 'b' => return '\x08'
  | 't' => return '\t'
  | 'n' => return '\n'
  | 'f' => return '\x0c'
  | 'r' => return '\r'
  | '"' => return '"'
  | '\\' => return '\\'
  | 'u' => codePoint (← hexNumber 4)
  | 'U' => codePoint (← hexNumber 8)
  | _ => failure

/-- One character of a string on one line. -/
def lineChar (mark : Char) (escapes : Bool) : Scan Char :=
  satisfy (isPlain mark escapes) <|> (do guard escapes; char '\\'; escaped)

def lineString (mark : Char) (escapes : Bool) : Scan String := do
  char mark
  let cs ← many (lineChar mark escapes)
  char mark
  return String.ofList cs

/-- A backslash at the end of a line, which swallows the blanks and line ends up to the next
character. -/
def foldedLine : Scan Unit := do
  char '\\'
  blanks
  newline
  let _ ← many ((do let _ ← satisfy isBlank) <|> newline)

/-- A stretch of a string over several lines that holds no closing marks. -/
def blockPiece (mark : Char) (escapes : Bool) : Scan (List Char) :=
  (do return [← satisfy (isPlain mark escapes)])
  <|> (do newline; return ['\n'])
  <|> (do guard escapes; foldedLine; return [])
  <|> (do guard escapes; char '\\'; return [← escaped])
  <|> (do let marks ← run (· == mark)
          guard (marks.length = 1 ∨ marks.length = 2)
          return marks)

/-- The closing marks of a string over several lines, with the marks right before them that belong
to the text. -/
def blockEnd (mark : Char) : Scan (List Char) := do
  let marks ← upTo 5 (satisfy (· == mark))
  guard (3 ≤ marks.length)
  return marks.drop 3

/-- A string over several lines. -/
def blockString (mark : Char) (escapes : Bool) : Scan String := do
  char mark; char mark; char mark
  let _ ← optional? newline
  let pieces ← many (blockPiece mark escapes)
  let tail ← blockEnd mark
  return String.ofList (pieces.flatten ++ tail)

def string : Scan String :=
  blockString '"' true <|> blockString '\'' false <|> lineString '"' true <|> lineString '\'' false

/-! ## Keys -/

/-- A character of a key without quotation marks. -/
def isBareKeyChar (c : Char) : Bool :=
  isDecimal c || ('a' ≤ c && c ≤ 'z') || ('A' ≤ c && c ≤ 'Z') || c == '_' || c == '-'

def keyName : Scan String :=
  lineString '"' true <|> lineString '\'' false
  <|> (do let c ← satisfy isBareKeyChar
          return String.ofList (c :: (← run isBareKeyChar)))

/-- How deep keys and values may be nested, this number left out. -/
def depthLimit : Nat := 80

/-- A key: names parted by dots. -/
def key : Scan (List Key) := do
  let names ← separated
    (do blanks
        let (name, span) ← located keyName
        blanks
        return (⟨name, span⟩ : Key))
    (char '.')
  guard (names.length < depthLimit)
  return names

end FileWatch.Toml
