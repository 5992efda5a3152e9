import FileWatch.Kernel.Walk
import FileWatch.Proofs.Record.RoundTrip
import FileWatch.Reader

/-!
# What the kernel writes is read back

The kernel writes file names, and it pads them in its own way.  So its records are frames
(`Record.WellFormed.frame`), and a read, which brings whole records from the front of the queue, yields
just these (`itemsOf_kernelBytes`).  A read that brings nothing is an error of its own.
-/

namespace FileWatch

/-- A record that the kernel can write: a name that is there is a file name. -/
structure Record.WellFormed (r : Record) : Prop where
  name_ne_nil : r.name ≠ some []
  zero_notMem_name : 0 ∉ r.name.getD []
  length_name_le : (r.name.getD []).length ≤ Tree.nameLimit

namespace Record

instance (r : Record) : Decidable r.WellFormed :=
  decidable_of_iff (r.name ≠ some [] ∧ 0 ∉ r.name.getD [] ∧
      (r.name.getD []).length ≤ Tree.nameLimit)
    ⟨fun h => ⟨h.1, h.2.1, h.2.2⟩, fun h => ⟨h.1, h.2, h.3⟩⟩

theorem kernelPadding_le (r : Record) : r.kernelPadding ≤ 16 := by
  unfold kernelPadding
  split
  · exact Nat.zero_le _
  · exact Nat.sub_le _ _

namespace WellFormed

variable {r : Record}

theorem of_name_none (h : r.name = none) : r.WellFormed := by
  constructor <;> simp [h]

/-- The least read buffer holds every record. -/
theorem length_kernelBytes_le (h : r.WellFormed) : r.kernelBytes.length ≤ minReadBuffer := by
  have hword : ∀ w, (wordBytes w).length = 4 := fun _ => rfl
  have hbuffer : minReadBuffer = 272 := rfl
  have hlimit : Tree.nameLimit = 255 := rfl
  have hname := h.length_name_le
  unfold kernelBytes encode nameField kernelPadding
  simp only [List.length_append, List.length_replicate, hword]
  cases hn : r.name with
  | none => simp [hbuffer]
  | some name =>
    rw [hn] at hname
    simp only [Option.getD_some] at hname ⊢
    omega

/-- The record as the kernel writes it. -/
def frame (h : r.WellFormed) : Frame where
  record := r
  padding := r.kernelPadding
  name_ne_nil := h.name_ne_nil
  zero_notMem_name := h.zero_notMem_name
  length_field_lt := by
    have hname := h.length_name_le
    have hlimit : Tree.nameLimit = 255 := rfl
    have hpadding := r.kernelPadding_le
    rw [nameField, List.length_append, List.length_replicate]
    omega

end WellFormed

end Record

theorem Notifier.batch_append (capacity : Nat) (rs : List Record) :
    (batch capacity rs).1 ++ (batch capacity rs).2 = rs := by
  induction rs generalizing capacity with
  | nil => rfl
  | cons r rest ih =>
    unfold batch
    by_cases hfits : r.kernelBytes.length ≤ capacity
    · simp only [if_pos hfits, List.cons_append, ih]
    · simp only [if_neg hfits, List.nil_append]

theorem Notifier.batch_ne_nil {capacity : Nat} {r : Record} {rest : List Record}
    (fits : r.kernelBytes.length ≤ capacity) : (batch capacity (r :: rest)).1 ≠ [] := by
  unfold batch
  rw [if_pos fits]
  exact List.cons_ne_nil _ _

theorem exists_frames {rs : List Record} (h : ∀ r ∈ rs, r.WellFormed) :
    ∃ fs : List Frame, fs.map Frame.record = rs ∧
      Frame.wire fs = rs.flatMap Record.kernelBytes := by
  induction rs with
  | nil => exact ⟨[], rfl, rfl⟩
  | cons r rest ih =>
    obtain ⟨fs, hrecord, hbytes⟩ := ih fun q hq => h q (List.mem_cons_of_mem _ hq)
    refine ⟨(h r List.mem_cons_self).frame :: fs, ?_, ?_⟩
    · rw [List.map_cons, hrecord]
      rfl
    · rw [Frame.wire, List.flatMap_cons, ← Frame.wire, hbytes, List.flatMap_cons]
      rfl

/-- The bytes of some frames hold just their records. -/
theorem recordsOf_wire (fs : List Frame) :
    recordsOf (Frame.wire fs) = (fs.map Frame.record).map .ok := by
  have hwalk := RecordCursor.items_wire fs [] 0
  rw [List.append_nil, RecordCursor.items_nil, List.append_nil] at hwalk
  rw [recordsOf, RecordCursor.start, hwalk, RecordCursor.marks]
  apply List.ext_getElem?
  intro i
  simp only [List.getElem?_map, List.getElem?_mapIdx, Option.map_map]
  rfl

/-- What one read brings, record by record. -/
def Reader.itemsOf (bytes : Bytes) : List (Except Malformation Record) :=
  if bytes.isEmpty then [.error .emptyRead]
  else if bytes.length < recordHeaderLength then [.error (.shortRead bytes.length)]
  else recordsOf bytes

theorem Reader.read_eq (pathExists : Path → Bool) (r : Reader) (bytes : Bytes) :
    r.read pathExists bytes = r.dispatchAll pathExists (itemsOf bytes) := by
  unfold Reader.read itemsOf
  split
  · rfl
  split
  · rfl
  · rfl

/-- A read of some frames brings their records, or an error where there are none. -/
theorem Reader.itemsOf_wire (fs : List Frame) : itemsOf (Frame.wire fs)
    = if fs.isEmpty then [.error .emptyRead] else (fs.map Frame.record).map .ok := by
  cases fs with
  | nil => rfl
  | cons f rest =>
    have hlength : recordHeaderLength ≤ (Frame.wire (f :: rest)).length := by
      rw [Frame.wire, List.flatMap_cons, List.length_append, f.length_bytes, Nat.add_assoc]
      exact Nat.le_add_right _ _
    have hne : (Frame.wire (f :: rest)).isEmpty = false := by
      rw [List.isEmpty_eq_false_iff, ← List.length_pos_iff]
      exact Nat.lt_of_lt_of_le (by decide) hlength
    unfold itemsOf
    simp only [hne, Bool.false_eq_true, if_false, Nat.not_lt.mpr hlength]
    exact recordsOf_wire (f :: rest)

/-- A read brings the records that it takes, or an error where it takes none. -/
theorem Reader.itemsOf_kernelBytes {rs : List Record} (h : ∀ r ∈ rs, r.WellFormed) :
    itemsOf (rs.flatMap Record.kernelBytes)
      = if rs.isEmpty then [.error .emptyRead] else rs.map .ok := by
  obtain ⟨fs, rfl, hbytes⟩ := exists_frames h
  rw [← hbytes, itemsOf_wire, List.isEmpty_map]

theorem Reader.filterMap_itemsOf {rs : List Record} (h : ∀ r ∈ rs, r.WellFormed) :
    (itemsOf (rs.flatMap Record.kernelBytes)).filterMap Except.toOption = rs := by
  rw [itemsOf_kernelBytes h]
  cases rs with
  | nil => rfl
  | cons r rest => simp [List.filterMap_map, Function.comp_def, Except.toOption]

end FileWatch
