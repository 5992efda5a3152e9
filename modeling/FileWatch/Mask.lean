import FileWatch.Ops

/-!
# Kernel masks

The kernel speaks of changes in a word of its own: some bits say what happened, or ask to be told
of it; others control a watch or belong to the bookkeeping.  `Mask.ops` reads what happened as
operations, `Mask.request` asks for operations.

They are not inverses.  A rename is asked for with all three move bits, and of these an arrival is
reported as a creation; so `(request a).ops` may hold `create` where `a` holds only `rename`.
-/

namespace FileWatch

/-- A word of kernel bits. -/
abbrev Mask := UInt32

namespace Mask

/-- A file was read. -/
def access : Mask := 0x1
/-- A file was written to. -/
def modify : Mask := 0x2
/-- Attributes changed. -/
def attrib : Mask := 0x4
/-- A file open for writing was closed. -/
def closeWrite : Mask := 0x8
/-- A file not open for writing was closed. -/
def closeNoWrite : Mask := 0x10
/-- A file or directory was opened. -/
def opened : Mask := 0x20
/-- An entry left a directory under its old name. -/
def movedFrom : Mask := 0x40
/-- An entry arrived in a directory under its new name. -/
def movedTo : Mask := 0x80
/-- An entry came into being. -/
def create : Mask := 0x100
/-- An entry was deleted. -/
def delete : Mask := 0x200
/-- The watched thing itself was deleted. -/
def deleteSelf : Mask := 0x400
/-- The watched thing itself was moved. -/
def moveSelf : Mask := 0x800
/-- All bits that say what happened. -/
def happenings : Mask := 0xFFF
/-- The file system was unmounted. -/
def unmount : Mask := 0x2000
/-- Records were lost. -/
def queueOverflow : Mask := 0x4000
/-- The watch is gone. -/
def ignored : Mask := 0x8000
/-- Watch a link itself. -/
def dontFollow : Mask := 0x2000000
/-- Widen a watch instead of replacing its mask. -/
def maskAdd : Mask := 0x20000000
/-- The change is about a directory. -/
def isDirectory : Mask := 0x40000000

/-- All bits that have a meaning. -/
def known : Mask := 0xF700EFFF

/-- Whether a word has any of the given bits. -/
def has (m bits : Mask) : Bool := m &&& bits != 0

/-- What is reported for which bits. -/
def reported : List (Mask × Ops) :=
  [(create ||| movedTo, .create), (delete ||| deleteSelf, .remove), (modify, .write),
   (moveSelf ||| movedFrom, .rename), (attrib, .chmod), (closeWrite, .closeWrite),
   (opened, .opened), (access, .read), (closeNoWrite, .closeRead)]

/-- What happened, as operations. -/
def ops (m : Mask) : Ops :=
  reported.foldl (fun s e => if m.has e.1 then s ∪ e.2 else s) .empty

/-- Which bits ask for what. -/
def requests : List (Ops × Mask) :=
  [(.create, create), (.write, modify), (.remove, delete ||| deleteSelf),
   (.rename, movedFrom ||| movedTo ||| moveSelf), (.chmod, attrib), (.closeWrite, closeWrite),
   (.opened, opened), (.read, access), (.closeRead, closeNoWrite)]

/-- The bits that ask for operations; unknown operations ask for nothing. -/
def request (a : Ops) : Mask :=
  requests.foldl (fun m e => if a.contains e.1 then m ||| e.2 else m) 0

end Mask

end FileWatch
