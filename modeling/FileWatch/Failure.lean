import FileWatch.Errno
import FileWatch.Event
import FileWatch.Toml.Misfit

/-!
# What can go wrong

Every failure is a cause with the data it is about; `Failure.message` is the one place where it
becomes words.  Failures reach the caller in two ways, as the result of a call and on the stream
of errors, and are the same values in both.
-/

namespace FileWatch

/-- Why an input or output operation failed. -/
inductive Cause where
  /-- The operating system gave a reason. -/
  | errno (reason : Errno)
  /-- A name that ends the path of a system call early. -/
  | nulByte (position : Nat)
  /-- The same, found on opening a file. -/
  | nulInName
  /-- A file that should be text and is not. -/
  | notUtf8
  /-- A reason given in words. -/
  | other (text : String)
deriving DecidableEq, Repr

/-- The cause in words. -/
def Cause.message : Cause → String
  | .errno e => e.shown
  | .nulByte n => "nul byte found in provided data at position: " ++ toString n
  | .nulInName => "file name contained an unexpected NUL byte"
  | .notUtf8 => "stream did not contain valid UTF-8"
  | .other s => s

/-- What is wrong with a stretch of event records. -/
inductive Malformation where
  /-- A read that brought nothing. -/
  | emptyRead
  /-- A read shorter than a header. -/
  | shortRead (bytes : Nat)
  /-- A header that breaks off. -/
  | truncatedHeader (left offset : Nat)
  /-- A name that breaks off. -/
  | truncatedName (need left offset : Nat)
  /-- A name so long that the record has no size. -/
  | overlongName (length : Nat)
  /-- A record that takes up no bytes. -/
  | standstill (offset : Nat)
  /-- Anything else, in words. -/
  | described (text : String)
deriving DecidableEq, Repr

/-- The malformation in words. -/
def Malformation.message : Malformation → String
  | .emptyRead => "zero-length read"
  | .shortRead n => "short read of " ++ toString n ++ " bytes"
  | .truncatedHeader left offset =>
    "truncated header: " ++ toString left ++ " bytes left at offset " ++ toString offset
  | .truncatedName need left offset =>
    "truncated name: need " ++ toString need ++ " bytes, " ++ toString left
      ++ " left at offset " ++ toString offset
  | .overlongName length => "name length " ++ toString length ++ " overflows"
  | .standstill offset => "record at offset " ++ toString offset ++ " did not advance"
  | .described s => s

/-- What is wrong with a settings file. -/
inductive SettingsFault where
  /-- The file could not be read. -/
  | unreadable (path : Path) (cause : Cause)
  /-- The text is no document. -/
  | notToml
  /-- A value is not what its key wants. -/
  | misfit (m : Toml.Misfit)
  /-- Anything else, in words. -/
  | described (text : String)
deriving DecidableEq, Repr

/-- The fault in words. -/
def SettingsFault.message : SettingsFault → String
  | .unreadable p c => p.shown ++ ": " ++ c.message
  | .notToml => "TOML parse error\n"
  | .misfit m => m.shown
  | .described s => s

/-- A failure of the watcher or of something it rests on. -/
inductive Failure where
  /-- The kernel refused to watch a path. -/
  | registration (path : Path) (cause : Cause)
  /-- A path that is not watched was to be removed. -/
  | notWatched (path : Path)
  /-- The watcher is closed. -/
  | closed
  /-- The kernel sent bytes that are no records. -/
  | malformed (what : Malformation)
  /-- The kernel lost events. -/
  | overflow
  /-- A system call failed. -/
  | systemCall (name : String) (cause : Cause)
  /-- The platform cannot report these operations. -/
  | unsupported (ops : Ops)
  /-- The settings could not be loaded. -/
  | settings (fault : SettingsFault)
deriving DecidableEq, Repr

namespace Failure

/-- The failure in words. -/
def message : Failure → String
  | registration p c => "cannot watch " ++ p.shown ++ ": " ++ c.message
  | notWatched p => "can't remove non-existent watch: " ++ p.shown
  | closed => "watcher already closed"
  | malformed m => "malformed event record: " ++ m.message
  | overflow => "event queue overflow: some events were dropped"
  | systemCall name c => name ++ ": " ++ c.message
  | unsupported ops => "operations not supported on this platform: " ++ ops.shown
  | settings f => "invalid watcher configuration: " ++ f.message

/-- The cause underneath, of the failures that have one. -/
def cause? : Failure → Option Cause
  | registration _ c => some c
  | systemCall _ c => some c
  | _ => none

/-- The failure of a call that wants to wake a reader which has ended. -/
def unheardWake : Failure := .systemCall "write" (.errno .brokenPipe)

/-- The messages of a failure and of what caused it, outermost first. -/
def chain (f : Failure) : List String := f.message :: (f.cause?.map Cause.message).toList

/-- Whether the descriptor that events are read from is gone, so that reading again is useless. -/
def isBadDescriptor (f : Failure) : Bool :=
  match f with
  | systemCall _ (.errno e) => e = .badDescriptor
  | _ => false

end Failure

end FileWatch
