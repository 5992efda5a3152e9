import FileWatch.Shell.Script
import FileWatch.Shell.Session

/-!
# The program

The words of the command line say what to watch; a script on standard input says what there is and what
happens to it.  The program prints what the command prints and ends as it ends.
-/

namespace FileWatch

/-- What becomes of a command line and a script. -/
def outcome (words : List String) (lines : List String) : Outcome :=
  match Script.ofLines lines with
  | .error line => ⟨2, [], (Report.plain ("cannot read " ++ Text.quoted line)).shown⟩
  | .ok script =>
    match Tree.ofScene script.items with
    | .error e => ⟨2, [], (Report.mk "cannot set the scene" [e.shown]).shown⟩
    | .ok t => Outcome.ofWords t (words.map Request.word) script.acts

end FileWatch

/-- Read the script, run the command, print. -/
def main (words : List String) : IO UInt32 := do
  let stdin ← IO.getStdin
  let mut lines : Array String := #[]
  repeat
    let line ← stdin.getLine
    if line.isEmpty then break
    lines := lines.push (line.dropEndWhile (· == '\n')).toString
  let outcome := FileWatch.outcome words lines.toList
  for line in outcome.output do
    IO.println line
  IO.eprint outcome.complaint
  return UInt32.ofNat outcome.exit
