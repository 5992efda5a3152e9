/-!
# Reasons a system call fails

The numbers and texts are those of the operating system.
-/

namespace FileWatch

/-- The number of a reason. -/
structure Errno where
  code : Int
deriving DecidableEq, Repr, Inhabited

namespace Errno

/-- The operation is never allowed. -/
def forbidden : Errno := ⟨1⟩

/-- A name leads nowhere. -/
def noEntry : Errno := ⟨2⟩

/-- A descriptor is not open. -/
def badDescriptor : Errno := ⟨9⟩

/-- The name is taken. -/
def nameTaken : Errno := ⟨17⟩

/-- A name stands below something that has no entries. -/
def notDirectory : Errno := ⟨20⟩

/-- A directory where a file was wanted. -/
def isDirectory : Errno := ⟨21⟩

/-- An argument that makes no sense. -/
def invalid : Errno := ⟨22⟩

/-- No room is left. -/
def noSpace : Errno := ⟨28⟩

/-- Nobody reads the other end. -/
def brokenPipe : Errno := ⟨32⟩

/-- A name that is too long. -/
def nameTooLong : Errno := ⟨36⟩

/-- A directory with entries. -/
def notEmpty : Errno := ⟨39⟩

/-- Symbolic links that lead on and on. -/
def linkLoop : Errno := ⟨40⟩

/-- The texts of the reasons, from number 0 on. -/
def texts : List String :=
  ["Success", "Operation not permitted", "No such file or directory", "No such process",
   "Interrupted system call", "Input/output error", "No such device or address",
   "Argument list too long", "Exec format error", "Bad file descriptor", "No child processes",
   "Resource temporarily unavailable", "Cannot allocate memory", "Permission denied",
   "Bad address", "Block device required", "Device or resource busy", "File exists",
   "Invalid cross-device link", "No such device", "Not a directory", "Is a directory",
   "Invalid argument", "Too many open files in system", "Too many open files",
   "Inappropriate ioctl for device", "Text file busy", "File too large",
   "No space left on device", "Illegal seek", "Read-only file system", "Too many links",
   "Broken pipe", "Numerical argument out of domain", "Numerical result out of range",
   "Resource deadlock avoided", "File name too long", "No locks available",
   "Function not implemented", "Directory not empty", "Too many levels of symbolic links"]

/-- An integer in decimal. -/
def decimal (n : Int) : String :=
  (if n < 0 then "-" else "") ++ toString n.natAbs

/-- What the reason is, in words. -/
def text (e : Errno) : String :=
  if e.code < 0 then "Unknown error " ++ decimal e.code
  else texts.getD e.code.toNat ("Unknown error " ++ decimal e.code)

/-- The reason in words and as a number. -/
def shown (e : Errno) : String := e.text ++ " (os error " ++ decimal e.code ++ ")"

end Errno

end FileWatch
