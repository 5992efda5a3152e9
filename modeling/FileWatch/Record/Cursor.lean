import FileWatch.Failure
import FileWatch.Record
import FileWatch.Settings

/-!
# Reading records

A cursor walks over the bytes of one read and takes records off their front.  It trusts nothing: a
header or a name that breaks off is an error, and after an error the cursor yields nothing more
and stays at the start of the bad record, because where the next one would begin is not known.
-/

namespace FileWatch

/-- A place in the bytes of one read. -/
structure RecordCursor where
  /-- The bytes from here on. -/
  rest : Bytes
  /-- How many bytes lie before. -/
  offset : Nat
  /-- Whether a bad record was met. -/
  failed : Bool
deriving DecidableEq, Repr

namespace RecordCursor

def start (bytes : Bytes) : RecordCursor := ⟨bytes, 0, false⟩

/-- The name in a name field: the bytes before the first NUL, if there are any. -/
def nameOf (field : Bytes) : Option Bytes :=
  match field.takeWhile (· != 0) with
  | [] => none
  | name => some name

/-- The record at the front of some bytes, and how many of them it takes up.  A size has to fit a
64-bit word, and it must not be nothing. -/
def decode (rest : Bytes) (offset : Nat) : Except Malformation (Record × Nat) :=
  let header := rest.take recordHeaderLength
  if header.length < recordHeaderLength then .error (.truncatedHeader header.length offset)
  else
    let length := (Record.wordOf (header.drop 12)).toNat
    let size := recordHeaderLength + length
    let field := (rest.drop recordHeaderLength).take length
    if UInt64.size ≤ size then .error (.overlongName length)
    else if field.length < length then .error (.truncatedName length field.length offset)
    else if offset + size ≤ offset then .error (.standstill offset)
    else
      .ok (⟨⟨(Record.wordOf header).toInt32⟩, Record.wordOf (header.drop 4),
        Record.wordOf (header.drop 8), nameOf field⟩, size)

theorem size_pos_of_decode {rest : Bytes} {offset size : Nat} {r : Record}
    (h : decode rest offset = .ok (r, size)) : 0 < size := by
  simp only [decode] at h
  split at h
  · cases h
  split at h
  · cases h
  split at h
  · cases h
  split at h
  · cases h
  · rename_i advances
    cases h
    omega

/-- The next record, or what is wrong with it. -/
def next? (c : RecordCursor) : Option (Except Malformation Record × RecordCursor) :=
  if c.failed || c.rest.isEmpty then none
  else match decode c.rest c.offset with
    | .error m => some (.error m, { c with failed := true })
    | .ok (r, size) => some (.ok r, ⟨c.rest.drop size, c.offset + size, false⟩)

/-- What shrinks from one item to the next. -/
def fuel (c : RecordCursor) : Nat := c.rest.length + if c.failed then 0 else 1

theorem fuel_next {c c' : RecordCursor} {item : Except Malformation Record}
    (h : c.next? = some (item, c')) : c'.fuel < c.fuel := by
  unfold next? at h
  split at h
  · cases h
  · rename_i going
    simp only [Bool.or_eq_true, not_or, Bool.not_eq_true, List.isEmpty_eq_false_iff] at going
    have nonempty : 0 < c.rest.length := List.length_pos_iff.2 going.2
    split at h
    · cases h
      simp [fuel, going.1]
    · rename_i decoded
      have advances := size_pos_of_decode decoded
      cases h
      simp only [fuel, going.1, List.length_drop]
      omega

/-- Everything the cursor yields, each item with the cursor behind it. -/
def items (c : RecordCursor) : List (Except Malformation Record × RecordCursor) :=
  match _h : c.next? with
  | none => []
  | some (item, c') => (item, c') :: items c'
termination_by c.fuel
decreasing_by exact fuel_next _h

/-- The cursor when it yields nothing more. -/
def last (c : RecordCursor) : RecordCursor := (c.items.getLast?.map (·.2)).getD c

end RecordCursor

/-- The records of a read in order, up to and with the first bad one. -/
def recordsOf (bytes : Bytes) : List (Except Malformation Record) :=
  (RecordCursor.start bytes).items.map (·.1)

end FileWatch
