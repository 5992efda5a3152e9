import FileWatch.Event

/-!
# Watching files through their directories

A program that saves a file often writes a new one and gives it the old name.  A watch on the file itself
does not survive that; a watch on its directory does.  So the directory is watched, and of the events
that come those about the file are picked out, however the file was spelled.
-/

namespace FileWatch

/-- The directory to watch for a file. -/
def Path.directory (file : Path) : Path :=
  match file.parent? with
  | some p => if p.bytes = [] then ⟨[dot]⟩ else p
  | none => ⟨[dot]⟩

/-- The files whose events are wanted, in their clean spellings. -/
structure FileFilter where
  files : List Path
deriving DecidableEq, Repr

namespace FileFilter

def ofFiles (files : List Path) : FileFilter := ⟨Path.sorted (files.map Path.normalize).eraseDups⟩

/-- Whether an event is about one of the files. -/
def accepts (f : FileFilter) (e : Event) : Bool := f.files.any fun p => p == e.path.normalize

end FileFilter

end FileWatch
