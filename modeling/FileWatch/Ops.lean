/-!
# Sets of file operations

Each operation is one bit of a 32-bit word.  Words with bits beyond the nine known ones are legal
sets: set algebra keeps the unknown bits, and only `truncate`, `complement` and the printed forms
leave them out.  An unknown bit in a request changes nothing about which known operations it asks
for, so a caller built for a larger set of operations still gets those known here.
-/

namespace FileWatch

/-- A set of file operations. -/
structure Ops where
  bits : UInt32
deriving DecidableEq, Repr, Inhabited

namespace Ops

/-- The set without operations. -/
def empty : Ops := ⟨0⟩

/-- A path came into being, or was moved in. -/
def create : Ops := ⟨1⟩

/-- A file was written to. -/
def write : Ops := ⟨2⟩

/-- A path was removed. -/
def remove : Ops := ⟨4⟩

/-- A path was renamed; reported under the old name. -/
def rename : Ops := ⟨8⟩

/-- The attributes of a file changed. -/
def chmod : Ops := ⟨16⟩

/-- A file that was open for writing was closed. -/
def closeWrite : Ops := ⟨32⟩

/-- A file or directory was opened. -/
def opened : Ops := ⟨64⟩

/-- A file was read from. -/
def read : Ops := ⟨128⟩

/-- A file that was open for reading only was closed. -/
def closeRead : Ops := ⟨256⟩

/-- Everything in either set. -/
def union (a b : Ops) : Ops := ⟨a.bits ||| b.bits⟩

/-- Everything in both sets. -/
def inter (a b : Ops) : Ops := ⟨a.bits &&& b.bits⟩

/-- What is in the first set and not in the second. -/
def diff (a b : Ops) : Ops := ⟨a.bits &&& ~~~b.bits⟩

/-- What is in exactly one of the sets. -/
def symmDiff (a b : Ops) : Ops := ⟨a.bits ^^^ b.bits⟩

instance : Union Ops := ⟨union⟩
instance : Inter Ops := ⟨inter⟩
instance : SDiff Ops := ⟨diff⟩

/-- Whether all of the second set is in the first. -/
def contains (a b : Ops) : Bool := a.bits &&& b.bits == b.bits

/-- Whether the sets share an operation. -/
def intersects (a b : Ops) : Bool := a.bits &&& b.bits != 0

/-- Whether the set is empty. -/
def isEmpty (a : Ops) : Bool := a.bits == 0

/-- The first set with the second put in or taken out. -/
def put (a b : Ops) (present : Bool) : Ops := if present then a ∪ b else a \ b

/-- The operations and their names, in bit order. -/
def named : List (String × Ops) :=
  [("CREATE", create), ("WRITE", write), ("REMOVE", remove), ("RENAME", rename),
   ("CHMOD", chmod), ("CLOSE_WRITE", closeWrite), ("OPEN", opened), ("READ", read),
   ("CLOSE_READ", closeRead)]

/-- The operations in the order in which a printed set lists them. -/
def shownOrder : List (String × Ops) :=
  [("CREATE", create), ("REMOVE", remove), ("WRITE", write), ("RENAME", rename),
   ("CHMOD", chmod), ("OPEN", opened), ("READ", read), ("CLOSE_WRITE", closeWrite),
   ("CLOSE_READ", closeRead)]

/-- Every known operation. -/
def all : Ops := ⟨511⟩

/-- The operations that every platform can report. -/
def portable : Ops := create ∪ write ∪ remove ∪ rename ∪ chmod

theorem all_eq_union_named : all = named.foldl (fun s e => s ∪ e.2) empty := by decide

/-- The set without unknown bits. -/
def truncate (a : Ops) : Ops := a ∩ all

/-- The known operations that are not in the set. -/
def complement (a : Ops) : Ops := all \ a

/-- Whether every known operation is in the set. -/
def isAll (a : Ops) : Bool := a.contains all

/-- A word read as a set, unless it has unknown bits. -/
def ofBits? (w : UInt32) : Option Ops := if (⟨w⟩ : Ops).truncate = ⟨w⟩ then some ⟨w⟩ else none

/-- The operation of a given name. -/
def ofName? (name : String) : Option Ops := named.lookup name

/-- The known operations of the set, in bit order. -/
def names (a : Ops) : List (String × Ops) := named.filter fun e => a.contains e.2

/-- The printed form: the names of the known operations, parted by bars. -/
def shown (a : Ops) : String :=
  "|".intercalate ((shownOrder.filter fun e => a.contains e.2).map (·.1))

/-- A word in lower-case hexadecimal. -/
def hex (w : UInt32) : String := "0x" ++ String.ofList (Nat.toDigits 16 w.toNat)

/-- The form that hides nothing: names in bit order, then the unknown bits as one number. -/
def described (a : Ops) : String :=
  let rest := a \ all
  let items := a.names.map (·.1) ++ if rest.isEmpty then [] else [hex rest.bits]
  "Op(" ++ (if items.isEmpty then hex 0 else " | ".intercalate items) ++ ")"

end Ops

end FileWatch
