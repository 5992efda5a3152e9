import FileWatch.Kernel.Walk

/-!
# Changes on disk

An act is a change that some program makes; it edits the tree and leaves notices.  A change of a thing
is told twice: to the directory that the thing was reached through, with its name there, and then to the
thing itself.  A name that comes or goes is told to the directory only.  When the last name of a thing
is gone, so is the thing, and that is told before the loss of the name.

An act that fails changes nothing and leaves no notices.
-/

namespace FileWatch

/-- What a program can do to the tree. -/
inductive Act where
  /-- Create a file and write to it. -/
  | create (path : Path) (text : Bytes)
  /-- Write at the end of a file. -/
  | append (path : Path) (text : Bytes)
  /-- Read from a file. -/
  | read (path : Path)
  /-- Create a directory. -/
  | makeDirectory (path : Path)
  /-- Remove an empty directory. -/
  | removeDirectory (path : Path)
  /-- Remove another name. -/
  | unlink (path : Path)
  /-- Give something another name. -/
  | rename (path target : Path)
  /-- Change attributes. -/
  | changeMode (path : Path)
deriving DecidableEq, Repr

/-- A path without the slashes at its end. -/
def Path.trimmed (p : Path) : Path := ⟨(p.bytes.reverse.dropWhile (· == slash)).reverse⟩

namespace Tree

/-- The bit that marks a directory. -/
def kindBit (t : Tree) (i : Inode) : Mask := if t.isDirectory i then Mask.isDirectory else 0

/-- The notice to a directory about one of its entries. -/
def entryNotice (t : Tree) (i : Inode) (what : Mask) (entry : Inode × Bytes) : Notice :=
  .change entry.1 (what ||| t.kindBit i) (some entry.2)

/-- The notice to a thing about itself. -/
def selfNotice (t : Tree) (i : Inode) (what : Mask) : Notice :=
  .change i (what ||| t.kindBit i) none

/-- The notices of a change of a thing that was reached under a name. -/
def notices (t : Tree) (i : Inode) (entry : Inode × Bytes) (what : Mask) : List Notice :=
  [t.entryNotice i what entry, t.selfNotice i what]

/-- The notices of a death, in a tree in which a thing has lost a name. -/
def deathNotices (t : Tree) (i : Inode) : List Notice :=
  if t.links i = 0 then [t.selfNotice i Mask.deleteSelf, .death i] else []

/-- Where a path leads, for an act that needs something to be there and to have a name. -/
def taken (t : Tree) (followLast : Bool) (p : Path) : Except Errno (Inode × Inode × Bytes) :=
  match t.locate followLast p with
  | .error e => .error e
  | .ok ⟨some i, some entry⟩ => .ok (i, entry)
  | .ok ⟨some _, none⟩ => .error .invalid
  | .ok ⟨none, _⟩ => .error .noEntry

/-- Where a path leads, for an act that needs nothing to be there. -/
def vacant (t : Tree) (p : Path) : Except Errno (Inode × Bytes) :=
  match t.locate false p with
  | .error e => .error e
  | .ok ⟨none, some entry⟩ => .ok entry
  | .ok _ => .error .nameTaken

/-- The three bits of an access that begins, goes on and ends; what happens in between is left out when
nothing is moved. -/
def session (moved : Bool) (between last : Mask) : List Mask :=
  [Mask.opened] ++ (if moved then [between] else []) ++ [last]

/-- Remove a name.  The notice of its loss comes last. -/
def drop (t : Tree) (i : Inode) (entry : Inode × Bytes) : Tree × List Notice :=
  let after := t.unbind entry.1 entry.2
  (after, after.deathNotices i ++ [t.entryNotice i Mask.delete entry])

/-- Whether a directory is at or below another one.  The walk upwards passes every directory at most
once. -/
def within (t : Tree) (outer : Inode) : (height : Nat) → Inode → Bool
  | 0, i => i == outer
  | height + 1, i =>
    i == outer || match t.node? i with
      | some (.directory _ above) => above != i && t.within outer height above
      | _ => false

/-- Whether a thing can take the place of what a name stands for. -/
def replaceable (t : Tree) (mover : Inode) (old : Inode) : Except Errno Unit :=
  match t.isDirectory mover, t.isDirectory old with
  | true, false => .error .notDirectory
  | false, true => .error .isDirectory
  | true, true => if (t.entries old).size = 0 then .ok () else .error .notEmpty
  | false, false => .ok ()

/-- Move a thing from one name to another.  What the other name stood for loses it. -/
def move (t : Tree) (i : Inode) (source target : Inode × Bytes) (old? : Option Inode) :
    Tree × List Notice :=
  let bound := (t.unbind source.1 source.2).bind target.1 target.2 i
  let after := match t.node? i with
    | some (.directory entries _) => bound.store i (.directory entries target.1)
    | _ => bound
  (after,
    [t.entryNotice i Mask.movedFrom source, t.entryNotice i Mask.movedTo target,
      t.selfNotice i Mask.moveSelf] ++ (old?.map after.deathNotices).getD [])

end Tree

namespace Act

/-- The tree after an act, and the notices it leaves. -/
def perform (t : Tree) : Act → Except Errno (Tree × List Notice)
  | create p text => do
    let (dir, name) ← t.vacant p
    let (i, t) := t.add dir name (.file text)
    return (t, (Mask.create :: Tree.session (text ≠ []) Mask.modify Mask.closeWrite).map
      fun what => t.entryNotice i what (dir, name))
  | append p text => do
    let (i, entry) ← t.taken true p
    match t.node? i with
    | some (.file content) =>
      return (t.store i (.file (content ++ text)),
        (Tree.session (text ≠ []) Mask.modify Mask.closeWrite).flatMap (t.notices i entry))
    | _ => throw .isDirectory
  | read p => do
    let (i, entry) ← t.taken true p
    let moved := match t.node? i with
      | some (.file (_ :: _)) => true
      | _ => false
    return (t, (Tree.session moved Mask.access Mask.closeNoWrite).flatMap (t.notices i entry))
  | makeDirectory p => do
    let (dir, name) ← t.vacant p.trimmed
    let (i, t) := t.add dir name (.directory ∅ dir)
    return (t, [t.entryNotice i Mask.create (dir, name)])
  | removeDirectory p => do
    let (i, entry) ← t.taken false p
    if !t.isDirectory i then throw .notDirectory
    else if (t.entries i).size ≠ 0 then throw .notEmpty
    else return t.drop i entry
  | unlink p => do
    let (i, entry) ← t.taken false p
    if t.isDirectory i then throw .isDirectory else return t.drop i entry
  | rename p target => do
    let (i, source) ← t.taken false p
    match ← t.locate false target.trimmed with
    | ⟨none, some goal⟩ =>
      if t.within i t.next goal.1 then throw .invalid else return t.move i source goal none
    | ⟨some old, some goal⟩ =>
      if old = i then return (t, [])
      else if t.within i t.next goal.1 then throw .invalid
      else do
        t.replaceable i old
        return t.move i source goal (some old)
    | ⟨_, none⟩ => throw .invalid
  | changeMode p => do
    let (i, entry) ← t.taken true p
    return (t, t.notices i entry Mask.attrib)

end Act

end FileWatch
