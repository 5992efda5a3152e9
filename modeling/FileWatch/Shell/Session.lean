import FileWatch.Shell.Arguments
import FileWatch.Shell.FileFilter
import FileWatch.Shell.Printer
import FileWatch.Shell.SettingsFile
import FileWatch.Watcher

/-!
# A session of a command

A command starts a watcher, registers its paths, and prints until it is interrupted.  Then the watcher
is closed, and what is still on its way is printed.

Between the watcher and the printer there may be a worker that finds out when a write is done.  It goes
by a clock, which stands still except when somebody waits: a wait for more lines moves the clock from
deadline to deadline until the lines are there, or no burst is left.
-/

namespace FileWatch

/-- The operations to ask for, so that the end of a write can be found out. -/
def Completion.ops : Completion → Ops
  | .native => .closeWrite
  | .debounce _ => .create ∪ .write

/-- Whether a command prints an event. -/
def Command.keeps : Command → Event → Bool
  | .watch _, _ => true
  | .file files, e => (FileFilter.ofFiles files).accepts e
  | .finishWrite _ _, e => e.has .closeWrite

/-- A command that runs. -/
structure Session where
  command : Command
  watcher : Watcher
  /-- What finds out when a write is done, if the platform does not say so. -/
  worker? : Option Worker
  printer : Printer
  now : Instant

namespace Session

/-! ## Starting -/

/-- Register a path, or report why not. -/
def register (w : Watcher) (p : Path) (o : WatchOptions) : Except Report Watcher :=
  match w.add p o with
  | (.ok (), w) => .ok w
  | (.error f, _) => .error (.ofFailure ("Failed to watch " ++ p.shown) f)

/-- Register the directory of a file, which must be there and must not be a directory itself. -/
def registerFile (w : Watcher) (file : Path) : Except Report Watcher :=
  match w.kernel.tree.ask false file with
  | .error cause => .error ⟨"Failed to stat " ++ file.shown, [cause.message]⟩
  | .ok i =>
    if w.kernel.tree.isDirectory i then .error (.plain (file.shown ++ " is a directory, not a file"))
    else register w file.directory .default

/-- How a command finds out that a write is done; only one of them has to. -/
def completionOf (w : Watcher) : Command → Completion
  | .finishWrite _ true => .debounce w.settings.debounceWindow
  | _ => w.completion

/-- Register what a command is about. -/
def registerAll (w : Watcher) (c : Command) : Except Report Watcher :=
  match c with
  | .watch paths => paths.foldlM (fun w p => register w p .default) w
  | .file files => files.foldlM registerFile w
  | .finishWrite paths _ =>
    paths.foldlM (fun w p => register w p (.new (completionOf w c).ops)) w

def start (k : Kernel) (s : Settings) (c : Command) : Except Report Session := do
  let w ← registerAll (.start s k) c
  return {
    command := c
    watcher := w
    worker? := match c with
      | .finishWrite _ _ => Worker.ofCompletion? (completionOf w c)
      | _ => none
    printer := .fresh
    now := 0 }

/-! ## Running -/

def print (s : Session) (events : List Event) : Session :=
  { s with printer := events.foldl (fun p e => p.take s.command.keeps (.event e)) s.printer }

/-- Print what a worker has sent. -/
def collect (s : Session) (w : Worker) : Session :=
  { s with worker? := some { w with output := w.output.taken } }.print w.output.sent

/-- Move on what the watcher has, and what is due, to the printer. -/
def relay (s : Session) : Session :=
  let (events, watcher) := s.watcher.takeEvents
  let s := { s with watcher }
  match s.worker? with
  | none => s.print events
  | some w =>
    let w := events.foldl (fun w e => (w.turn s.now e).2) w
    s.collect (w.fireExpired s.now).2

/-- The earliest deadline of a burst in progress. -/
def nextDeadline? (s : Session) : Option Instant :=
  s.worker?.bind fun w => Pending.nextDeadline? w.pending

def burstsOpen (s : Session) : Nat := (s.worker?.map fun w => w.pending.size).getD 0

/-- Wait until so many lines were printed in all, passing so many deadlines at most. -/
def await (lines : Nat) : (deadlines : Nat) → Session → Session
  | 0, s => s
  | n + 1, s =>
    if lines ≤ s.printer.lines.length then s
    else match s.nextDeadline? with
      | none => s
      | some deadline => await lines n { s with now := max s.now deadline }.relay

/-- Let something happen on disk and wait for so many more lines. -/
def act (s : Session) (a : Act) (lines : Nat) : Session :=
  let wanted := s.printer.lines.length + lines
  let s := { s with watcher := s.watcher.act a }.relay
  await wanted s.burstsOpen s

/-- Close the watcher and print what is still on its way. -/
def interrupt (s : Session) : Session :=
  let s := { s with watcher := s.watcher.close.2 }.relay
  match s.worker? with
  | none => s
  | some w => s.collect (w.finish s.now)

end Session

/-! ## The command as a whole -/

/-- What is left of a program that has ended. -/
structure Outcome where
  exit : Nat
  output : List String
  complaint : String
deriving DecidableEq, Repr

namespace Outcome

/-- The name and the number of the program. -/
def versionLine : String := "seer 0.1.0"

/-- The line that says that the command waits for events. -/
def readyLine : String := "ready; press ^C to exit"

/-- The end of a command, on a tree, with acts and how many lines to wait for after each. -/
def ofCommand (t : Tree) (c : Command) (settingsFile? : Option Path) (debounceMillis? : Option UInt64)
    (acts : List (Act × Nat)) : Outcome :=
  let started := do
    let settings ← Settings.forCommand t settingsFile? debounceMillis?
    Session.start (.ofTree t) settings c
  match started with
  | .error r => ⟨1, [], r.shown⟩
  | .ok s =>
    let s := (acts.foldl (fun s a => s.act a.1 a.2) s).interrupt
    ⟨0, readyLine :: s.printer.lines.map Line.shown, ""⟩

/-- The end of the program. -/
def ofWords (t : Tree) (words : List Word) (acts : List (Act × Nat)) : Outcome :=
  match Request.ofWords words with
  | .refused => ⟨2, [], ""⟩
  | .help => ⟨0, [], ""⟩
  | .version => ⟨0, [versionLine], ""⟩
  | .run c settingsFile? debounceMillis? => ofCommand t c settingsFile? debounceMillis? acts

end Outcome

end FileWatch
