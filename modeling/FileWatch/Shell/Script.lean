import FileWatch.Kernel.Scene

/-!
# Scripts

A script says what is on disk before a command starts and what happens there while it runs.  Each line
is one thing, its parts separated by tabs:

    directory  PATH
    file       PATH  [TEXT]
    link       PATH  TARGET
    alias      PATH  SOURCE
    LINES  create  PATH  [TEXT]
    LINES  append  PATH  [TEXT]
    LINES  rename  PATH  TARGET
    LINES  read | mkdir | rmdir | unlink | chmod  PATH

A line that starts with a number is an act, and the number says how many lines of output to wait for
after it.
-/

namespace FileWatch

/-- What is on disk, and what happens there. -/
structure Script where
  items : List Item
  acts : List (Act × Nat)
deriving DecidableEq, Repr

namespace Script

def path (s : String) : Path := ⟨Utf8.encode s⟩

/-- A thing on disk. -/
def item? : List String → Option Item
  | ["directory", p] => some (.directory (path p))
  | ["file", p] => some (.file (path p) [])
  | ["file", p, text] => some (.file (path p) (Utf8.encode text))
  | ["link", p, target] => some (.link (path p) (path target))
  | ["alias", p, source] => some (.alias (path p) (path source))
  | _ => none

def act? : List String → Option Act
  | ["create", p] => some (.create (path p) [])
  | ["create", p, text] => some (.create (path p) (Utf8.encode text))
  | ["append", p] => some (.append (path p) [])
  | ["append", p, text] => some (.append (path p) (Utf8.encode text))
  | ["rename", p, target] => some (.rename (path p) (path target))
  | ["read", p] => some (.read (path p))
  | ["mkdir", p] => some (.makeDirectory (path p))
  | ["rmdir", p] => some (.removeDirectory (path p))
  | ["unlink", p] => some (.unlink (path p))
  | ["chmod", p] => some (.changeMode (path p))
  | _ => none

/-- Take one line into a script. -/
def take? (s : Script) (line : String) : Option Script :=
  match line.splitOn "\t" with
  | [] => none
  | first :: rest =>
    match first.toNat? with
    | some lines => (act? rest).map fun a => { s with acts := s.acts ++ [(a, lines)] }
    | none => (item? (first :: rest)).map fun i => { s with items := s.items ++ [i] }

/-- The script that some lines make, or the first line that makes none. -/
def ofLines (lines : List String) : Except String Script :=
  (lines.filter (· ≠ "")).foldlM
    (fun s line => match s.take? line with
      | some s => .ok s
      | none => .error line)
    ⟨[], []⟩

end Script

end FileWatch
