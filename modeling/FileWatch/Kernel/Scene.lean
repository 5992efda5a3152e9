import FileWatch.Kernel.Act

/-!
# Scenes

A scene is what is to be found on disk before anything is watched: directories, files and links, given in
the order in which they are put there.
-/

namespace FileWatch

/-- One thing of a scene. -/
inductive Item where
  /-- A directory, with the directories above it. -/
  | directory (path : Path)
  /-- A file and what it holds. -/
  | file (path : Path) (content : Bytes)
  /-- A symbolic link and what it says. -/
  | link (path target : Path)
  /-- Another name of something that is there. -/
  | alias (path source : Path)
deriving DecidableEq, Repr

namespace Tree

/-- Create a directory unless it is there. -/
def ensureDirectory (t : Tree) (p : Path) : Except Errno Tree :=
  match t.find true p with
  | .ok i => if t.isDirectory i then .ok t else .error .nameTaken
  | .error _ => ((Act.makeDirectory p).perform t).map (·.1)

/-- Create a directory and those above it. -/
def ensureDirectories (t : Tree) (base : Path) : List Bytes → Except Errno Tree
  | [] => .ok t
  | step :: rest => do
    let p := base.join step
    (← t.ensureDirectory p).ensureDirectories p rest

/-- Write a file, new or not. -/
def write (t : Tree) (p : Path) (content : Bytes) : Except Errno Tree := do
  match ← t.locate true p with
  | ⟨some i, _⟩ => if t.isDirectory i then throw .isDirectory else return t.store i (.file content)
  | ⟨none, some (dir, name)⟩ => return (t.add dir name (.file content)).2
  | ⟨none, none⟩ => throw .noEntry

/-- Put a thing into the tree. -/
def put (t : Tree) : Item → Except Errno Tree
  | .directory p => t.ensureDirectories ⟨if p.isAbsolute then [slash] else []⟩ p.steps
  | .file p content => t.write p content
  | .link p target => do
    let (dir, name) ← t.vacant p
    return (t.add dir name (.link target)).2
  | .alias p source => do
    let i ← t.find false source
    let (dir, name) ← t.vacant p
    if t.isDirectory i then throw .forbidden else return t.bind dir name i

/-- What stands on every machine: the file that is always empty, and the directory of the running
program. -/
def standing : List Item :=
  [.directory (path "/dev"), .file (path "/dev/null") [], .directory (path "/proc/self")]
where
  /-- A text as a path. -/
  path (s : String) : Path := ⟨Utf8.encode s⟩

/-- A scene in an empty directory. -/
def ofScene (items : List Item) : Except Errno Tree := (standing ++ items).foldlM put .fresh

end Tree

end FileWatch
