import FileWatch.Kernel.Walk
import FileWatch.Settings
import FileWatch.Shell.Report

/-!
# The settings of a command

A command has its settings from a file, if it is given one, and a quiet window that is given on the
command line counts for more than the one in the file.
-/

namespace FileWatch

/-- The settings in a file. -/
def Settings.load (t : Tree) (p : Path) : Except Failure Settings :=
  match t.content p with
  | .error cause => .error (.settings (.unreadable p cause))
  | .ok bytes =>
    match Utf8.decode? bytes with
    | none => .error (.settings (.unreadable p .notUtf8))
    | some text =>
      match Settings.ofToml text with
      | .error fault => .error (.settings fault)
      | .ok s => .ok s

def Settings.forCommand (t : Tree) (file? : Option Path) (debounceMillis? : Option UInt64) :
    Except Report Settings := do
  let s ← match file? with
    | none => pure Settings.default
    | some p =>
      match Settings.load t p with
      | .error f => throw (.ofFailure ("Failed to load config from " ++ p.shown) f)
      | .ok s => pure s
  return match debounceMillis? with
    | none => s
    | some ms => s.withDebounce (.ofMillis ms.toNat)

end FileWatch
