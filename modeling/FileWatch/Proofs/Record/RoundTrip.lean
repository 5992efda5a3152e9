import FileWatch.Record.Cursor
import Mathlib.Algebra.Group.Nat.Defs

/-!
# Records are read back as they were written

A `Frame` is a record together with its padding, and with the three facts that make its bytes mean
it: a name that is there is not empty, holds no NUL byte, and its field has a length that fits the
length word.  Nothing is asked of the padding; a record without a name may be padded too, and what
the kernel writes is one case of many.

The main statement, `items_wire_append`, has any bytes behind the frames.  The cursor yields the
records, each with the place behind it, and goes on exactly as it would over the bytes behind them
alone, only that every offset it speaks of lies so much further on (`shift`).  Both halves rest on
the cursor looking at nothing but what is left: `items_frame` is one step over a frame, and
`items_shift` says that a walk does not depend on where it starts.
-/

namespace FileWatch

/-! ## Words -/

namespace Record

theorem or_shiftLeft_eq_add {a b i : Nat} (h : a < 2 ^ i) : a ||| b <<< i = a + 2 ^ i * b := by
  rw [Nat.or_comm, ← Nat.shiftLeft_add_eq_or_of_lt h, Nat.shiftLeft_eq, Nat.add_comm, Nat.mul_comm]

/-- A word is read least byte first. -/
theorem toNat_wordOf (bytes : Bytes) :
    (wordOf bytes).toNat = (bytes.getD 0 0).toNat + 2 ^ 8 * (bytes.getD 1 0).toNat
      + 2 ^ 16 * (bytes.getD 2 0).toNat + 2 ^ 24 * (bytes.getD 3 0).toNat := by
  have h0 := (bytes.getD 0 0).toNat_lt
  have h1 := (bytes.getD 1 0).toNat_lt
  have h2 := (bytes.getD 2 0).toNat_lt
  have h3 := (bytes.getD 3 0).toNat_lt
  -- No shift loses a bit, and no two of the shifted bytes overlap.
  have shifted : ∀ (b : UInt8) (i : Nat), i ≤ 24 → (b.toNat <<< i) % 2 ^ 32 = b.toNat <<< i := by
    intro b i hi
    apply Nat.mod_eq_of_lt
    rw [Nat.shiftLeft_eq]
    calc b.toNat * 2 ^ i < 2 ^ 8 * 2 ^ i :=
          (Nat.mul_lt_mul_right (Nat.two_pow_pos i)).mpr b.toNat_lt
      _ ≤ 2 ^ 8 * 2 ^ 24 := Nat.mul_le_mul_left _ (Nat.pow_le_pow_right (by decide) hi)
  simp only [wordOf, UInt32.toNat_or, UInt32.toNat_shiftLeft, UInt8.toNat_toUInt32]
  rw [show (8 : UInt32).toNat % 32 = 8 from rfl, show (16 : UInt32).toNat % 32 = 16 from rfl,
    show (24 : UInt32).toNat % 32 = 24 from rfl, shifted _ 8 (by decide), shifted _ 16 (by decide),
    shifted _ 24 (by decide), or_shiftLeft_eq_add h0,
    or_shiftLeft_eq_add (i := 16) (by omega), or_shiftLeft_eq_add (i := 24) (by omega)]

theorem wordOf_wordBytes_append (w : UInt32) (rest : Bytes) : wordOf (wordBytes w ++ rest) = w := by
  apply UInt32.toNat_inj.mp
  rw [toNat_wordOf]
  have hw := w.toNat_lt
  simp [wordBytes, Nat.shiftRight_eq_div_pow]
  omega

end Record

/-! ## Frames -/

/-- A record as it may stand on the wire, with so many bytes of padding behind its name. -/
structure Frame where
  record : Record
  padding : Nat
  name_ne_nil : record.name ≠ some []
  zero_notMem_name : 0 ∉ record.name.getD []
  length_field_lt : (record.nameField padding).length < 2 ^ 32

namespace Frame

def bytes (f : Frame) : Bytes := f.record.encode f.padding

/-- The bytes of some frames, one after the other. -/
def wire (fs : List Frame) : Bytes := fs.flatMap bytes

/-- The four words before the name field. -/
def header (f : Frame) : Bytes :=
  Record.wordBytes f.record.handle.id.toUInt32 ++ Record.wordBytes f.record.mask
    ++ Record.wordBytes f.record.cookie
    ++ Record.wordBytes (UInt32.ofNat (f.record.nameField f.padding).length)

theorem bytes_eq (f : Frame) : f.bytes = f.header ++ f.record.nameField f.padding := rfl

theorem length_header (f : Frame) : f.header.length = recordHeaderLength := rfl

theorem length_bytes (f : Frame) :
    f.bytes.length = recordHeaderLength + (f.record.nameField f.padding).length := by
  rw [bytes_eq, List.length_append, length_header]

theorem nameOf_nameField (f : Frame) :
    RecordCursor.nameOf (f.record.nameField f.padding) = f.record.name := by
  have htake : (f.record.nameField f.padding).takeWhile (· != 0) = f.record.name.getD [] := by
    unfold Record.nameField
    rw [List.takeWhile_append_of_pos fun b hb => ?_]
    · simp
    · simp only [bne_iff_ne]
      exact fun h => f.zero_notMem_name (h ▸ hb)
  unfold RecordCursor.nameOf
  rw [htake]
  have hne := f.name_ne_nil
  cases hname : f.record.name with
  | none => rfl
  | some name =>
    cases name with
    | nil => exact absurd hname hne
    | cons b rest => rfl

/-- **One record is read back, whatever stands behind it.** -/
theorem decode_append (f : Frame) (rest : Bytes) (offset : Nat) :
    RecordCursor.decode (f.bytes ++ rest) offset = .ok (f.record, f.bytes.length) := by
  have hfield := f.length_field_lt
  have htake : (f.bytes ++ rest).take recordHeaderLength = f.header := by
    rw [bytes_eq, List.append_assoc, List.take_left' f.length_header]
  have hdrop : (f.bytes ++ rest).drop recordHeaderLength
      = f.record.nameField f.padding ++ rest := by
    rw [bytes_eq, List.append_assoc, List.drop_left' f.length_header]
  have hlength : (Record.wordOf (f.header.drop 12)).toNat
      = (f.record.nameField f.padding).length := by
    rw [show f.header.drop 12 =
        Record.wordBytes (UInt32.ofNat (f.record.nameField f.padding).length) ++ [] from rfl,
      Record.wordOf_wordBytes_append, UInt32.toNat_ofNat', Nat.mod_eq_of_lt hfield]
  have hname : (f.record.nameField f.padding ++ rest).take (f.record.nameField f.padding).length
      = f.record.nameField f.padding := List.take_left
  -- The header is whole and the name field is there, and neither check of a sum can fail.
  unfold RecordCursor.decode
  simp only [htake, hdrop, hlength, hname, f.length_header, Nat.lt_irrefl, if_false]
  have hsize : ¬ UInt64.size ≤ recordHeaderLength + (f.record.nameField f.padding).length := by
    have : recordHeaderLength = 16 := rfl
    have : UInt64.size = 2 ^ 64 := rfl
    omega
  have hadvance : ¬ offset + (recordHeaderLength + (f.record.nameField f.padding).length) ≤ offset :=
    by
      have : recordHeaderLength = 16 := rfl
      omega
  have hhandle : Record.wordOf f.header = f.record.handle.id.toUInt32 :=
    Record.wordOf_wordBytes_append _ _
  have hmask : Record.wordOf (f.header.drop 4) = f.record.mask :=
    Record.wordOf_wordBytes_append _ _
  have hcookie : Record.wordOf (f.header.drop 8) = f.record.cookie :=
    Record.wordOf_wordBytes_append _ _
  rw [if_neg hsize, if_neg hadvance, nameOf_nameField, hhandle, hmask, hcookie, length_bytes]
  rfl

end Frame

/-! ## A walk does not depend on where it starts -/

/-- The same malformation, that much further on. -/
def Malformation.shift (n : Nat) : Malformation → Malformation
  | truncatedHeader left offset => truncatedHeader left (offset + n)
  | truncatedName need left offset => truncatedName need left (offset + n)
  | standstill offset => standstill (offset + n)
  | m => m

namespace RecordCursor

/-- The same cursor, that much further on. -/
def shift (n : Nat) (c : RecordCursor) : RecordCursor := { c with offset := c.offset + n }

/-- The same item with the same cursor behind it, that much further on. -/
def shiftItem (n : Nat) (x : Except Malformation Record × RecordCursor) :
    Except Malformation Record × RecordCursor :=
  (x.1.mapError (Malformation.shift n), x.2.shift n)

theorem decode_shift (rest : Bytes) (offset n : Nat) :
    decode rest (offset + n) = (decode rest offset).mapError (Malformation.shift n) := by
  unfold decode
  simp only
  split
  · rfl
  split
  · rfl
  split
  · rfl
  have hadvance : ∀ o length : Nat, ¬ o + (recordHeaderLength + length) ≤ o := by
    intro o length
    have : recordHeaderLength = 16 := rfl
    omega
  rw [if_neg (hadvance _ _), if_neg (hadvance _ _)]
  rfl

theorem next?_shift (c : RecordCursor) (n : Nat) :
    (c.shift n).next? = c.next?.map (shiftItem n) := by
  unfold next? shift
  simp only
  split
  · rfl
  · rw [decode_shift]
    cases decode c.rest c.offset with
    | error m => rfl
    | ok x =>
      refine congrArg some (Prod.ext rfl ?_)
      show (⟨_, c.offset + n + x.2, false⟩ : RecordCursor) = ⟨_, c.offset + x.2 + n, false⟩
      rw [Nat.add_right_comm]

theorem items_of_next?_none {c : RecordCursor} (h : c.next? = none) : c.items = [] := by
  rw [items]
  split
  · rfl
  · rename_i heq
    rw [h] at heq
    cases heq

theorem items_of_next? {c c' : RecordCursor} {item : Except Malformation Record}
    (h : c.next? = some (item, c')) : c.items = (item, c') :: c'.items := by
  rw [items]
  split
  · rename_i heq
    rw [h] at heq
    cases heq
  · rename_i heq
    rw [h] at heq
    cases heq
    rfl

theorem items_shift (c : RecordCursor) (n : Nat) :
    (c.shift n).items = c.items.map (shiftItem n) := by
  fun_induction items c with
  | case1 c hnone =>
    exact items_of_next?_none (by rw [next?_shift, hnone, Option.map_none])
  | case2 c item c' hnext ih =>
    have hshifted : (c.shift n).next? = some (shiftItem n (item, c')) := by
      rw [next?_shift, hnext]
      rfl
    rw [items_of_next? hshifted, List.map_cons, ← ih]
    rfl

/-! ## A walk over frames -/

theorem next?_frame (f : Frame) (rest : Bytes) (offset : Nat) :
    next? ⟨f.bytes ++ rest, offset, false⟩
      = some (.ok f.record, ⟨rest, offset + f.bytes.length, false⟩) := by
  have hne : (f.bytes ++ rest).isEmpty = false := by
    rw [List.isEmpty_eq_false_iff, ← List.length_pos_iff, List.length_append, f.length_bytes]
    have : recordHeaderLength = 16 := rfl
    omega
  unfold next?
  simp only [hne, Bool.or_false, Bool.false_eq_true, if_false, f.decode_append, List.drop_left]

theorem items_frame (f : Frame) (rest : Bytes) (offset : Nat) :
    items ⟨f.bytes ++ rest, offset, false⟩
      = (.ok f.record, ⟨rest, offset + f.bytes.length, false⟩)
        :: items ⟨rest, offset + f.bytes.length, false⟩ :=
  items_of_next? (next?_frame f rest offset)

/-- The records of some frames, each with the cursor behind it. -/
def marks (offset : Nat) (fs : List Frame) (tail : Bytes) :
    List (Except Malformation Record × RecordCursor) :=
  fs.mapIdx fun i f => (.ok f.record,
    ⟨Frame.wire (fs.drop (i + 1)) ++ tail, offset + (Frame.wire (fs.take (i + 1))).length, false⟩)

theorem marks_cons (offset : Nat) (f : Frame) (fs : List Frame) (tail : Bytes) :
    marks offset (f :: fs) tail
      = (.ok f.record, ⟨Frame.wire fs ++ tail, offset + f.bytes.length, false⟩)
        :: marks (offset + f.bytes.length) fs tail := by
  simp [marks, List.mapIdx_cons, Frame.wire, Nat.add_assoc]

theorem items_wire (fs : List Frame) (tail : Bytes) (offset : Nat) :
    items ⟨Frame.wire fs ++ tail, offset, false⟩
      = marks offset fs tail ++ items ⟨tail, offset + (Frame.wire fs).length, false⟩ := by
  induction fs generalizing offset with
  | nil => rfl
  | cons f fs ih =>
    rw [show Frame.wire (f :: fs) = f.bytes ++ Frame.wire fs from rfl, List.append_assoc,
      items_frame, ih, marks_cons, List.cons_append, List.length_append, Nat.add_assoc]

theorem items_nil (offset : Nat) : items ⟨[], offset, false⟩ = [] := items_of_next?_none rfl

theorem getLast?_marks (fs : List Frame) :
    ((marks 0 fs []).getLast?.map (·.2)).getD (start (Frame.wire fs))
      = ⟨[], (Frame.wire fs).length, false⟩ := by
  rcases List.eq_nil_or_concat fs with rfl | ⟨before, f, rfl⟩
  · rfl
  · rw [List.concat_eq_append, marks, List.mapIdx_concat, List.getLast?_concat,
      List.take_of_length_le (by simp)]
    simp [Frame.wire]

/-- **Frames are read back in order, and the rest as if they were not there.**  Without a rest the
cursor ends behind the last of them and has met nothing bad. -/
theorem items_wire_append (fs : List Frame) (tail : Bytes) :
    (start (Frame.wire fs ++ tail)).items
        = marks 0 fs tail ++ (start tail).items.map (shiftItem (Frame.wire fs).length) ∧
      (start (Frame.wire fs)).items = marks 0 fs [] ∧
      (start (Frame.wire fs)).last = ⟨[], (Frame.wire fs).length, false⟩ := by
  have hwalk := fun tail => items_wire fs tail 0
  simp only [Nat.zero_add] at hwalk
  have hclosed : (start (Frame.wire fs)).items = marks 0 fs [] := by
    have h := hwalk []
    rwa [List.append_nil, items_nil, List.append_nil] at h
  refine ⟨?_, hclosed, ?_⟩
  · rw [← items_shift, start, hwalk tail]
    simp [start, shift]
  · rw [last, hclosed]
    exact getLast?_marks fs

/-- What follows the last record is reported where it stands. -/
example : recordsOf ((⟨⟨1⟩, Mask.create, 0, some [0x78]⟩ : Record).kernelBytes
      ++ List.replicate 5 0xFF)
    = [.ok ⟨⟨1⟩, Mask.create, 0, some [0x78]⟩, .error (.truncatedHeader 5 32)] := by cbv

end RecordCursor

end FileWatch
