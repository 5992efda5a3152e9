import FileWatch.Failure
import FileWatch.Kernel.Tree

/-!
# Where a path leads

A path is walked piece by piece.  Every piece but the last has to lead to a directory, or to a link that
leads to one; what lies above a linked directory is above the directory and not above the link.
After forty links the walk is given up.

The last piece may name nothing: that is a place where something can be created, and `Tree.find`
fails only when the caller wants something to be there.
-/

namespace FileWatch

/-- The end of a walk. -/
structure Place where
  /-- What is there. -/
  inode? : Option Inode
  /-- The directory and the name it has there; the root has none. -/
  entry? : Option (Inode × Bytes)
deriving DecidableEq, Repr

/-- The pieces of a path that the kernel takes a step for.  A slash at the end asks for a
directory, as a dot would. -/
def Path.steps (p : Path) : List Bytes :=
  p.pieces.filter (· ≠ []) ++ if p.bytes.getLast? = some slash then [[dot]] else []

namespace Tree

/-- How long a name can be. -/
def nameLimit : Nat := 255

/-- How long a path can be. -/
def pathLimit : Nat := 4095

/-- How many links a walk follows. -/
def linkLimit : Nat := 40

/-- Where a walk starts. -/
def origin (p : Path) (cur : Inode) : Inode := if p.isAbsolute then root else cur

/-- Walk from a directory, following at most so many links. -/
def walk (t : Tree) (followLast : Bool) (links : Nat) (cur : Inode) (steps : List Bytes) :
    Except Errno Place :=
  match steps with
  | [] => .ok ⟨some cur, t.entryOf? cur⟩
  | step :: rest =>
    match t.node? cur with
    | some (.directory entries above) =>
      if step = [dot] then t.walk followLast links cur rest
      else if step = [dot, dot] then t.walk followLast links above rest
      else if step.length > nameLimit then .error .nameTooLong
      else match entries.find? step with
        | none => if rest = [] then .ok ⟨none, some (cur, step)⟩ else .error .noEntry
        | some i =>
          match t.node? i with
          | some (.link target) =>
            if rest = [] && !followLast then .ok ⟨some i, some (cur, step)⟩
            else match links with
              | 0 => .error .linkLoop
              | links + 1 => t.walk followLast links (origin target cur) (target.steps ++ rest)
          | _ => if rest = [] then .ok ⟨some i, some (cur, step)⟩ else t.walk followLast links i rest
    | _ => .error .notDirectory
termination_by (links, steps.length)

/-- Where a path leads. -/
def locate (t : Tree) (followLast : Bool) (p : Path) : Except Errno Place :=
  if p.bytes = [] then .error .noEntry
  else if p.bytes.length > pathLimit then .error .nameTooLong
  else t.walk followLast linkLimit (origin p here) p.steps

/-- What a path leads to. -/
def find (t : Tree) (followLast : Bool) (p : Path) : Except Errno Inode :=
  match t.locate followLast p with
  | .error e => .error e
  | .ok ⟨some i, _⟩ => .ok i
  | .ok ⟨none, _⟩ => .error .noEntry

/-- What a path leads to, asked by a caller whose path can hold a NUL byte. -/
def ask (t : Tree) (followLast : Bool) (p : Path) : Except Cause Inode :=
  if p.bytes.contains 0 then .error .nulInName
  else match t.find followLast p with
    | .error e => .error (.errno e)
    | .ok i => .ok i

/-- Whether a path exists; a link does, wherever it leads.  A path is missing only if the answer is
that nothing is there: one that cannot be asked about counts as existing. -/
def pathExists (t : Tree) (p : Path) : Bool :=
  match t.ask false p with
  | .error cause => cause ≠ .errno .noEntry
  | .ok _ => true

def content (t : Tree) (p : Path) : Except Cause Bytes :=
  match t.ask true p with
  | .error c => .error c
  | .ok i =>
    match t.node? i with
    | some (.file content) => .ok content
    | _ => .error (.errno .isDirectory)

end Tree

end FileWatch
