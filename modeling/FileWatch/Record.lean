import FileWatch.Mask
import FileWatch.Path

/-!
# Event records

The kernel's account of one change.  On the wire a record is four little-endian words (handle, mask,
cookie, length of the name field) and then the name field: the name, filled up with NUL bytes.  A
record without a name has an empty field.

How much padding follows a name is the writer's business, so `encode` takes it as a parameter;
`kernelPadding` is what the kernel writes.
-/

namespace FileWatch

/-- The kernel's number for a watch. -/
structure Handle where
  id : Int32
deriving DecidableEq, Repr, Inhabited

/-- The handle as it shows in messages. -/
def Handle.shown (h : Handle) : String :=
  "wd" ++ (if h.id < 0 then "-" else "") ++ toString h.id.toInt.natAbs

/-- What the kernel reports about one change. -/
structure Record where
  /-- The watch that saw it. -/
  handle : Handle
  /-- What happened. -/
  mask : Mask
  /-- A number that ties the two halves of a move together. -/
  cookie : UInt32
  /-- The entry it happened to, inside a watched directory. -/
  name : Option Bytes
deriving DecidableEq, Repr, Inhabited

namespace Record

/-- The four bytes of a word, least first. -/
def wordBytes (w : UInt32) : Bytes :=
  [w.toUInt8, (w >>> 8).toUInt8, (w >>> 16).toUInt8, (w >>> 24).toUInt8]

/-- The word at the front of some bytes, least byte first; missing bytes count as zero. -/
def wordOf (bytes : Bytes) : UInt32 :=
  let byte (i : Nat) : UInt32 := (bytes.getD i 0).toUInt32
  byte 0 ||| byte 1 <<< 8 ||| byte 2 <<< 16 ||| byte 3 <<< 24

/-- The name field of a record, with so many bytes of padding. -/
def nameField (r : Record) (padding : Nat) : Bytes :=
  r.name.getD [] ++ List.replicate padding 0

/-- The bytes of a record, with so many bytes of padding behind its name. -/
def encode (r : Record) (padding : Nat) : Bytes :=
  let field := r.nameField padding
  wordBytes r.handle.id.toUInt32 ++ wordBytes r.mask ++ wordBytes r.cookie
    ++ wordBytes (UInt32.ofNat field.length) ++ field

/-- The kernel ends a name with a NUL byte and fills the field up to a multiple of the header. -/
def kernelPadding (r : Record) : Nat :=
  match r.name with
  | none => 0
  | some name => 16 - name.length % 16

/-- The bytes of a record as the kernel writes them. -/
def kernelBytes (r : Record) : Bytes := r.encode r.kernelPadding

end Record

end FileWatch
