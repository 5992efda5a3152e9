import FileWatch.Dict
import FileWatch.Errno
import FileWatch.Kernel.Notifier
import FileWatch.Path

/-!
# The tree of files

Things on disk are numbered, and a directory maps names to numbers; so one thing can have several
names.  A directory has one name only and knows the directory above it.  What a symbolic link says
is a path, which is read when it is followed.

This file holds the tree and its edits.  How a path leads through it is told in
`FileWatch.Kernel.Walk`.
-/

namespace FileWatch

/-- What is stored under a number. -/
inductive Node where
  | directory (entries : Dict Bytes Inode) (above : Inode)
  | file (content : Bytes)
  | link (target : Path)

/-- The things on disk. -/
structure Tree where
  nodes : Dict Inode Node
  /-- The next unused number. -/
  next : Nat

namespace Tree

/-- The directory that is above all others. -/
def root : Inode := ⟨0⟩

/-- The directory that relative paths start from. -/
def here : Inode := ⟨2⟩

/-- What is stored under a number. -/
def node? (t : Tree) (i : Inode) : Option Node := t.nodes.find? i

/-- Store something under a number. -/
def store (t : Tree) (i : Inode) (n : Node) : Tree := { t with nodes := t.nodes.insert i n }

/-- Whether a number stands for a directory. -/
def isDirectory (t : Tree) (i : Inode) : Bool :=
  match t.node? i with
  | some (.directory _ _) => true
  | _ => false

/-- The names in a directory. -/
def entries (t : Tree) (dir : Inode) : Dict Bytes Inode :=
  match t.node? dir with
  | some (.directory entries _) => entries
  | _ => ∅

/-- How many names a thing has. -/
def links (t : Tree) (i : Inode) : Nat :=
  (t.nodes.keys.flatMap fun dir => (t.entries dir).values).count i

/-- The directory above a directory, and the name that it has there. -/
def entryOf? (t : Tree) (i : Inode) : Option (Inode × Bytes) :=
  match t.node? i with
  | some (.directory _ above) =>
    ((t.entries above).entries.find? fun e => e.2 == i).map fun e => (above, e.1)
  | _ => none

/-- Let a name in a directory stand for a thing. -/
def bind (t : Tree) (dir : Inode) (name : Bytes) (i : Inode) : Tree :=
  match t.node? dir with
  | some (.directory entries above) => t.store dir (.directory (entries.insert name i) above)
  | _ => t

/-- Take a name out of a directory. -/
def unbind (t : Tree) (dir : Inode) (name : Bytes) : Tree :=
  match t.node? dir with
  | some (.directory entries above) => t.store dir (.directory (entries.erase name) above)
  | _ => t

/-- Something new under a name. -/
def add (t : Tree) (dir : Inode) (name : Bytes) (n : Node) : Inode × Tree :=
  (⟨t.next⟩, ({ t with next := t.next + 1 }.store ⟨t.next⟩ n).bind dir name ⟨t.next⟩)

/-- A tree with nothing in the directory that relative paths start from.  That directory lies two
levels deep, so that it, the one above and the root are three. -/
def fresh : Tree :=
  let t : Tree := ⟨∅, 1⟩
  let t := t.store root (.directory ∅ root)
  let (i, t) := t.add root [0x77] (.directory ∅ root)
  (t.add i [0x64] (.directory ∅ i)).2

instance : Inhabited Tree := ⟨fresh⟩

end Tree

end FileWatch
