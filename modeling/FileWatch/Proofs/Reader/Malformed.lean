import Mathlib
import FileWatch.Proofs.Reader.Dispatch
import FileWatch.Proofs.Reader.Reads
import FileWatch.Proofs.Record.Grammar

/-!
# Reads that hold no records

A read may bring anything.  Whatever it brings can be cut in one way: records as far as that goes, and
what is left, which does not begin with a record.  Such a cutting is an `Intake`; that it is one is part
of the type, all bytes have one (`exists_intake`), and no two (`eq_of_bytes`).

What a read does to a reader is read off the intake (`turn_bytes`).  Its records are handled, and if it
has a fault, the fault is reported, once.  Two tests look for faults, one for reads shorter than a header
and one behind every record; `fault?` has a case for each, and a read that the first one reports has
nothing in it for the second.

The reader reads into one buffer over and over, so behind a short read stand bytes of older ones
(`fill`).  It looks at as many bytes as the read brought.
-/

namespace FileWatch

open Record

/-! ## What there is in a read -/

/-- The bytes of a read, cut into slices that spell records and what is left behind them.  What is left
does not begin with a record, so the slices are as many as there can be. -/
structure Intake where
  slices : List (Record × Bytes)
  left : Bytes
  spelled : ∀ s ∈ slices, Spelled s.1 s.2
  longest : ∀ r slice rest, left = slice ++ rest → ¬ Spelled r slice

namespace Intake

/-- The bytes of the slices. -/
def whole (i : Intake) : Bytes := i.slices.flatMap (·.2)

/-- All the bytes of the read. -/
def bytes (i : Intake) : Bytes := i.whole ++ i.left

def records (i : Intake) : List Record := i.slices.map (·.1)

/-- What is wrong with the read, if anything. -/
def fault? (i : Intake) : Option Malformation :=
  if i.bytes.isEmpty then some .emptyRead
  else if i.bytes.length < recordHeaderLength then some (.shortRead i.bytes.length)
  else if i.left.isEmpty then none
  else if i.left.length < recordHeaderLength then
    some (.truncatedHeader i.left.length i.whole.length)
  else
    some (.truncatedName (announced i.left) (i.left.length - recordHeaderLength) i.whole.length)

/-- A read has a fault if it is shorter than a header, or if something is left of it. -/
theorem isSome_fault?_iff (i : Intake) :
    i.fault?.isSome = true ↔ i.bytes.length < recordHeaderLength ∨ i.left ≠ [] := by
  have h16 : recordHeaderLength = 16 := rfl
  unfold fault?
  by_cases hempty : i.bytes = []
  · simp [hempty, h16]
  by_cases hshort : i.bytes.length < recordHeaderLength
  · simp [hempty, hshort]
  by_cases hleft : i.left = []
  · simp [hempty, hshort, hleft]
  by_cases hheader : i.left.length < recordHeaderLength <;> simp [hempty, hshort, hleft, hheader]

/-! ## Bytes are cut in one way -/

/-- A slice announces its own length, also as the front of more. -/
theorem length_of_spelled {r : Record} {slice : Bytes} (spelled : Spelled r slice) (rest : Bytes) :
    slice.length = recordHeaderLength + announced (slice ++ rest) := by
  have hlength := spelled.length_eq
  have hsame : announced ((slice ++ rest).take slice.length) = announced (slice ++ rest) :=
    RecordCursor.announced_take (by omega)
  rw [List.take_left] at hsame
  rw [← hsame]
  exact hlength

/-- A slice spells one record. -/
theorem eq_of_spelled {r r' : Record} {slice : Bytes} (h : Spelled r slice) (h' : Spelled r' slice) :
    r = r' := by
  obtain ⟨⟨id⟩, mask, cookie, name⟩ := r
  obtain ⟨⟨id'⟩, mask', cookie', name'⟩ := r'
  have hid : id = id' := by
    have hword : id.toUInt32 = id'.toUInt32 :=
      UInt32.toNat_inj.mp (h.handle_eq.trans h'.handle_eq.symm)
    rw [← Int32.toInt32_toUInt32 id, hword, Int32.toInt32_toUInt32]
  have hmask : mask = mask' := UInt32.toNat_inj.mp (h.mask_eq.trans h'.mask_eq.symm)
  have hcookie : cookie = cookie' := UInt32.toNat_inj.mp (h.cookie_eq.trans h'.cookie_eq.symm)
  have hname : name = name' := by
    have hsame : name.getD [] = name'.getD [] := h.name_eq.trans h'.name_eq.symm
    have hne : name ≠ some [] := h.name_ne_nil
    have hne' : name' ≠ some [] := h'.name_ne_nil
    cases name <;> cases name' <;> simp_all
  rw [hid, hmask, hcookie, hname]

/-- **Bytes are cut in one way.**  By induction on the slices: where the one cutting has a slice, the
other has it too, and of the same length, for the front of the bytes says how long it is. -/
theorem slices_unique {xs ys : List (Record × Bytes)} {left left' : Bytes}
    (hxs : ∀ s ∈ xs, Spelled s.1 s.2) (hys : ∀ s ∈ ys, Spelled s.1 s.2)
    (hleft : ∀ r slice rest, left = slice ++ rest → ¬ Spelled r slice)
    (hleft' : ∀ r slice rest, left' = slice ++ rest → ¬ Spelled r slice)
    (h : xs.flatMap (·.2) ++ left = ys.flatMap (·.2) ++ left') : xs = ys ∧ left = left' := by
  induction xs generalizing ys with
  | nil =>
    cases ys with
    | nil => exact ⟨rfl, h⟩
    | cons y ys =>
      rw [List.flatMap_nil, List.nil_append, List.flatMap_cons, List.append_assoc] at h
      exact absurd (hys y List.mem_cons_self) (hleft _ _ _ h)
  | cons x xs ih =>
    cases ys with
    | nil =>
      rw [List.flatMap_nil, List.nil_append, List.flatMap_cons, List.append_assoc] at h
      exact absurd (hxs x List.mem_cons_self) (hleft' _ _ _ h.symm)
    | cons y ys =>
      rw [List.flatMap_cons, List.flatMap_cons, List.append_assoc, List.append_assoc] at h
      have hx := hxs x List.mem_cons_self
      have hy := hys y List.mem_cons_self
      have hlength : x.2.length = y.2.length := by
        rw [length_of_spelled hx (xs.flatMap (·.2) ++ left), h, ← length_of_spelled hy]
      obtain ⟨hslice, hrest⟩ := List.append_inj h hlength
      obtain ⟨hmore, hsame⟩ := ih (fun s hs => hxs s (List.mem_cons_of_mem _ hs))
        (fun s hs => hys s (List.mem_cons_of_mem _ hs)) hrest
      have hrecord : x.1 = y.1 := eq_of_spelled hx (hslice ▸ hy)
      exact ⟨congrArg₂ List.cons (Prod.ext hrecord hslice) hmore, hsame⟩

theorem eq_of_bytes {i j : Intake} (h : i.bytes = j.bytes) : i = j := by
  obtain ⟨hslices, hleft⟩ := slices_unique i.spelled j.spelled i.longest j.longest h
  cases i
  cases j
  cases hslices
  cases hleft
  rfl

/-! ## Every read is an intake -/

theorem not_spelled_of_breaks {left : Bytes} {offset : Nat} {m : Malformation}
    (breaks : Breaks left offset m) {r : Record} {slice rest : Bytes} (hleft : left = slice ++ rest) :
    ¬ Spelled r slice := by
  intro spelled
  have hlength := length_of_spelled spelled rest
  rw [← hleft] at hlength
  have hfits : slice.length ≤ left.length := by
    rw [hleft, List.length_append]
    omega
  cases breaks with
  | header _ short => omega
  | name _ torn => omega

theorem map_fst_passed (offset : Nat) (slices : List (Record × Bytes)) (left : Bytes) :
    (RecordCursor.passed offset slices left).map (·.1) = (slices.map (·.1)).map .ok := by
  induction slices generalizing offset with
  | nil => rfl
  | cons s more ih => rw [RecordCursor.passed, List.map_cons, ih, List.map_cons, List.map_cons]

/-- Less than a header holds no record. -/
theorem slices_eq_nil (i : Intake) (short : i.bytes.length < recordHeaderLength) : i.slices = [] := by
  have h16 : recordHeaderLength = 16 := rfl
  have hmany := RecordCursor.header_le_of_spelled i.spelled
  have hwhole : (i.slices.flatMap (·.2)).length ≤ i.bytes.length := by
    rw [bytes, List.length_append]
    exact Nat.le_add_right _ _
  rw [h16] at hmany short
  apply List.eq_nil_of_length_eq_zero
  omega

/-- What the cursor says of what is left is the fault of a read that is not short. -/
theorem fault?_of_breaks {i : Intake} {m : Malformation} (hlong : ¬ i.bytes.length < recordHeaderLength)
    (breaks : Breaks i.left i.whole.length m) : i.fault? = some m := by
  have hempty : i.bytes ≠ [] := by
    intro h
    rw [h] at hlong
    exact hlong (by decide)
  unfold fault?
  cases breaks with
  | header some_left short => simp [hempty, hlong, some_left, short]
  | name whole torn =>
    have hleft : i.left ≠ [] := by
      intro h
      rw [h] at whole
      exact absurd whole (by decide)
    simp [hempty, hlong, hleft, Nat.not_lt.mpr whole]

/-- **Any bytes are an intake**, and the reader takes from them its records and then its fault. -/
theorem exists_intake (bytes : Bytes) : ∃ i : Intake, i.bytes = bytes ∧
    Reader.itemsOf bytes = i.records.map .ok ++ i.fault?.toList.map .error := by
  obtain ⟨slices, left, bad, hbytes, spelled, hbad, hbreaks, hitems⟩ :=
    RecordCursor.exists_slices bytes 0
  rw [Nat.zero_add] at hbreaks hitems
  have longest : ∀ r slice rest, left = slice ++ rest → ¬ Spelled r slice := by
    intro r slice rest hleft
    cases bad with
    | none =>
      obtain ⟨rfl, -⟩ := List.append_eq_nil_iff.mp (hleft.symm.trans (hbad.mp rfl))
      intro hspelled
      exact absurd hspelled.length_eq (by decide)
    | some m => exact not_spelled_of_breaks (hbreaks m rfl) hleft
  let i : Intake := ⟨slices, left, spelled, longest⟩
  have hi : i.bytes = bytes := hbytes.symm
  refine ⟨i, hi, ?_⟩
  unfold Reader.itemsOf
  rw [← hi]
  by_cases hshort : i.bytes.length < recordHeaderLength
  · have hnone : i.records = [] := by rw [records, i.slices_eq_nil hshort, List.map_nil]
    rw [hnone, fault?]
    by_cases hempty : i.bytes.isEmpty
    · simp [hempty]
    · simp [hempty, hshort]
  · have hempty : ¬ i.bytes.isEmpty = true := by
      intro h
      rw [List.isEmpty_iff.mp h] at hshort
      exact hshort (by decide)
    have hrecords : recordsOf i.bytes = i.records.map .ok ++ bad.toList.map .error := by
      rw [recordsOf, hi, RecordCursor.start, hitems, List.map_append, map_fst_passed]
      cases bad <;> rfl
    have hfault : i.fault? = bad := by
      cases bad with
      | some m => exact fault?_of_breaks hshort (hbreaks m rfl)
      | none =>
        have hsound : ¬ (i.bytes.length < recordHeaderLength ∨ i.left ≠ []) := by
          rintro (hless | hsome)
          · exact hshort hless
          · exact hsome (hbad.mp rfl)
        exact Option.not_isSome_iff_eq_none.mp (mt i.isSome_fault?_iff.mp hsound)
    rw [if_neg hempty, if_neg hshort, hrecords, hfault]

theorem itemsOf_bytes (i : Intake) :
    Reader.itemsOf i.bytes = i.records.map .ok ++ i.fault?.toList.map .error := by
  obtain ⟨j, hj, hitems⟩ := exists_intake i.bytes
  rwa [eq_of_bytes hj] at hitems

/-- The read without what is left of it. -/
def trimmed (i : Intake) : Intake where
  slices := i.slices
  left := []
  spelled := i.spelled
  longest := by
    intro r slice rest hleft spelled
    obtain ⟨rfl, -⟩ := List.append_eq_nil_iff.mp hleft.symm
    exact absurd spelled.length_eq (by decide)

theorem fault?_trimmed {i : Intake} (hne : i.slices ≠ []) : i.trimmed.fault? = none := by
  have hsound : ¬ (i.trimmed.bytes.length < recordHeaderLength ∨ i.trimmed.left ≠ []) := by
    rintro (hshort | hleft)
    · exact hne (i.trimmed.slices_eq_nil hshort)
    · exact hleft rfl
  exact Option.not_isSome_iff_eq_none.mp (mt i.trimmed.isSome_fault?_iff.mp hsound)

end Intake

/-! ## What a read does -/

namespace Reader

variable {s : Reader}

/-- What a read overwrites of a buffer, and what stays behind it. -/
def fill (buffer bytes : Bytes) : Bytes := bytes ++ buffer.drop bytes.length

/-- Read after read into one buffer, until the reader ends.  Of the buffer it looks at as many bytes as
the read brought; which paths exist may be another matter each time. -/
def pollInto (s : Reader) (buffer : Bytes) (reads : List ((Path → Bool) × Bytes)) : Reader × Bytes :=
  reads.foldl (fun x read =>
    let buffer := fill x.2 read.2
    if x.1.running then (x.1.turn read.1 (buffer.take read.2.length), buffer) else (x.1, buffer))
    (s, buffer)

/-- The same reader, if its stream of errors held something else. -/
def withErrors (s : Reader) (fs : List Failure) : Reader :=
  { s with errors := { s.errors with sent := fs } }

theorem Serving.withErrors (serving : s.Serving) (fs : List Failure) : (s.withErrors fs).Serving :=
  ⟨serving.paired, serving.events_listening, serving.errors_listening, serving.not_closing⟩

/-- The reader after the records of some reads, without their faults. -/
def handled (s : Reader) (intakes : List ((Path → Bool) × Intake)) : Reader :=
  intakes.foldl (fun s x => (s.dispatchAll x.1 (x.2.records.map .ok)).2) s

/-- What one read adds to the errors: what its records report, and then its fault. -/
def reported (descriptorOpen : Bool) (i : Intake) : List Failure :=
  i.records.filterMap (Record.failure? descriptorOpen) ++ i.fault?.toList.map .malformed

/-- Good records are handled in the same way whatever failures were reported before, and add to them. -/
theorem Serving.dispatchAll_withErrors (serving : s.Serving) (pathExists : Path → Bool)
    (rs : List Record) (fs : List Failure) :
    (s.withErrors fs).dispatchAll pathExists (rs.map .ok)
      = (true, (s.dispatchAll pathExists (rs.map .ok)).2.withErrors
          (fs ++ rs.filterMap (Record.failure? s.descriptorOpen))) := by
  obtain ⟨said, hlength, hsaid, hplain⟩ := dispatchAll_announces pathExists serving rs
  obtain ⟨said', hlength', hsaid', hother⟩ :=
    dispatchAll_announces pathExists (serving.withErrors fs) rs
  -- Both announce the same, because the condition does not look at the errors.
  have hsame : said' = said := by
    apply List.ext_getElem (hlength'.trans hlength.symm)
    intro i hi' hi
    have hiff := fun e => (hsaid' i (hlength' ▸ hi') e).trans (hsaid i (hlength ▸ hi) e).symm
    simp only [List.getElem?_eq_getElem hi, List.getElem?_eq_getElem hi', Option.some.injEq] at hiff
    exact Option.ext hiff
  rw [hother, hplain, hsame]
  rfl

theorem Serving.dispatchAll_serving (serving : s.Serving) (pathExists : Path → Bool)
    (rs : List Record) : (s.dispatchAll pathExists (rs.map .ok)).2.Serving ∧
      (s.dispatchAll pathExists (rs.map .ok)).2.running = s.running ∧
      (s.dispatchAll pathExists (rs.map .ok)).2.descriptorOpen = s.descriptorOpen := by
  obtain ⟨said, -, -, hafter⟩ := dispatchAll_announces pathExists serving rs
  rw [hafter]
  exact ⟨serving.after (invalidated rs) (said.filterMap id)
    (rs.filterMap (Record.failure? s.descriptorOpen))
    (rs.filterMap (Record.dropped? s.descriptorOpen)), rfl, rfl⟩

/-- **One read.**  Its records are handled, its fault is reported if it has one, and the reader goes on. -/
theorem Serving.turn_bytes (serving : s.Serving) (pathExists : Path → Bool) (i : Intake)
    (fs : List Failure) :
    (s.withErrors fs).turn pathExists i.bytes
      = (s.dispatchAll pathExists (i.records.map .ok)).2.withErrors
          (fs ++ reported s.descriptorOpen i) := by
  unfold turn reported
  rw [read_eq, i.itemsOf_bytes, dispatchAll_append, serving.dispatchAll_withErrors]
  simp only [if_true]
  cases i.fault? with
  | none => simp [dispatchAll]
  | some m =>
    have hserving := (serving.dispatchAll_serving pathExists i.records).1.withErrors
      (fs ++ i.records.filterMap (Record.failure? s.descriptorOpen))
    simp only [Option.toList_some, List.map_cons, List.map_nil, dispatchAll, hserving.report, if_true]
    simp [Reader.after, Reader.withErrors]

/-- **A sequence of reads**, by induction: behind each the reader is one that serves, with other errors. -/
theorem Serving.pollInto_bytes (serving : s.Serving) (running : s.running = true) (buffer : Bytes)
    (intakes : List ((Path → Bool) × Intake)) (fs : List Failure) :
    ((s.withErrors fs).pollInto buffer (intakes.map fun x => (x.1, x.2.bytes))).1
        = (s.handled intakes).withErrors (fs ++ intakes.flatMap fun x => reported s.descriptorOpen x.2) ∧
      (s.handled intakes).running = true := by
  induction intakes generalizing s buffer fs with
  | nil => exact ⟨by rw [List.flatMap_nil, List.append_nil]; rfl, running⟩
  | cons x rest ih =>
    obtain ⟨hserving, hrunning, hopen⟩ := serving.dispatchAll_serving x.1 x.2.records
    obtain ⟨hrest, hlast⟩ := ih hserving (hrunning.trans running) (fill buffer x.2.bytes)
      (fs ++ reported s.descriptorOpen x.2)
    refine ⟨?_, hlast⟩
    rw [hopen, List.append_assoc] at hrest
    rw [List.flatMap_cons, List.map_cons, pollInto, List.foldl_cons]
    have hfront : (fill buffer x.2.bytes).take x.2.bytes.length = x.2.bytes := List.take_left
    have hgoing : (s.withErrors fs).running = true := running
    simp only [hgoing, if_true, hfront, serving.turn_bytes]
    exact hrest

/-- Some reads without what is left of them; a read without records is left out. -/
def sound (intakes : List ((Path → Bool) × Intake)) : List ((Path → Bool) × Intake) :=
  (intakes.filter fun x => !x.2.slices.isEmpty).map fun x => (x.1, x.2.trimmed)

/-- What is left of the reads makes no difference to their records, and nothing is reported but what the
records report. -/
theorem sound_eq (s : Reader) (descriptorOpen : Bool) (intakes : List ((Path → Bool) × Intake)) :
    s.handled (sound intakes) = s.handled intakes ∧
      ((sound intakes).flatMap fun x => reported descriptorOpen x.2)
        = intakes.flatMap fun x => x.2.records.filterMap (Record.failure? descriptorOpen) := by
  induction intakes generalizing s with
  | nil => exact ⟨rfl, rfl⟩
  | cons x rest ih =>
    by_cases hnone : x.2.slices = []
    · have hsound : sound (x :: rest) = sound rest := by
        rw [sound, List.filter_cons_of_neg (by simp [hnone])]
        rfl
      have hrecords : x.2.records = [] := by rw [Intake.records, hnone, List.map_nil]
      rw [hsound, List.flatMap_cons, hrecords, handled, handled, List.foldl_cons, hrecords]
      exact ih s
    · have hsound : sound (x :: rest) = (x.1, x.2.trimmed) :: sound rest := by
        rw [sound, List.filter_cons_of_pos (by simp [hnone]), List.map_cons]
        rfl
      obtain ⟨hhandled, hreported⟩ := ih (s.dispatchAll x.1 (x.2.records.map .ok)).2
      rw [hsound, List.flatMap_cons, List.flatMap_cons, hreported, reported,
        Intake.fault?_trimmed hnone]
      exact ⟨hhandled, by simp [Intake.trimmed, Intake.records]⟩

/-- What the records of some reads report. -/
theorem Serving.errors_handled (serving : s.Serving) (intakes : List ((Path → Bool) × Intake)) :
    (s.handled intakes).errors.sent = s.errors.sent ++ intakes.flatMap fun x =>
      x.2.records.filterMap (Record.failure? s.descriptorOpen) := by
  induction intakes generalizing s with
  | nil => exact (List.append_nil _).symm
  | cons x rest ih =>
    obtain ⟨hserving, -, hopen⟩ := serving.dispatchAll_serving x.1 x.2.records
    have hfirst := serving.dispatchAll_withErrors x.1 x.2.records s.errors.sent
    rw [show s.withErrors s.errors.sent = s from rfl] at hfirst
    have hrest := ih hserving
    rw [hopen, hfirst] at hrest
    rw [handled, List.foldl_cons, ← handled, List.flatMap_cons, hfirst, hrest, ← List.append_assoc]
    rfl

theorem malformed_notMem_failures (descriptorOpen : Bool) (rs : List Record) (m : Malformation) :
    .malformed m ∉ rs.filterMap (Record.failure? descriptorOpen) := by
  intro hmem
  obtain ⟨r, -, hr⟩ := List.mem_filterMap.mp hmem
  unfold Record.failure? at hr
  split at hr
  · cases hr
  split at hr
  · cases hr
  split at hr <;> cases hr

/-- **A bad read is contained.**  Whatever the reads bring, each is cut in one way into records and what is
left.  The reader handles the records of all of them as if nothing else had come: that is where the same
reads without their remains would have got it, but for its errors.  To these each read adds what its
records report and then its fault, which it has, once, if it is shorter than a header or if something
is left of it.  The reader goes on, and what older reads have left in its buffer is not looked at. -/
theorem malformed_reads_contained {s : Reader} (serving : s.Serving) (running : s.running = true)
    (buffer : Bytes) (reads : List ((Path → Bool) × Bytes)) :
    ∃ intakes : List ((Path → Bool) × Intake), intakes.map (fun x => (x.1, x.2.bytes)) = reads ∧
      (∀ x ∈ intakes, (x.2.fault?.isSome = true ↔
          x.2.bytes.length < recordHeaderLength ∨ x.2.left ≠ []) ∧
        ∀ m, .malformed m ∉ x.2.records.filterMap (Record.failure? s.descriptorOpen)) ∧
      let q := (s.pollInto buffer reads).1
      let clean := (s.pollInto buffer ((sound intakes).map fun x => (x.1, x.2.bytes))).1
      q.running = true ∧ clean = s.handled intakes ∧
      q = clean.withErrors (s.errors.sent ++ intakes.flatMap fun x =>
        x.2.records.filterMap (Record.failure? s.descriptorOpen)
          ++ x.2.fault?.toList.map .malformed) ∧
      clean.errors.sent = s.errors.sent ++ intakes.flatMap fun x =>
        x.2.records.filterMap (Record.failure? s.descriptorOpen) := by
  have hcut : Function.Surjective fun x : (Path → Bool) × Intake => (x.1, x.2.bytes) := by
    rintro ⟨pathExists, bytes⟩
    obtain ⟨i, hi, -⟩ := Intake.exists_intake bytes
    exact ⟨(pathExists, i), congrArg (Prod.mk pathExists) hi⟩
  obtain ⟨intakes, rfl⟩ := hcut.list_map reads
  refine ⟨intakes, rfl, fun x _ => ⟨x.2.isSome_fault?_iff, fun m =>
    malformed_notMem_failures s.descriptorOpen x.2.records m⟩, ?_⟩
  intro q clean
  obtain ⟨hq, hrunning⟩ := serving.pollInto_bytes running buffer intakes s.errors.sent
  obtain ⟨hclean, -⟩ := serving.pollInto_bytes running buffer (sound intakes) s.errors.sent
  obtain ⟨hhandled, hreported⟩ := sound_eq s s.descriptorOpen intakes
  have herrors := serving.errors_handled intakes
  rw [hhandled, hreported, ← herrors] at hclean
  have hsame : clean = s.handled intakes := hclean
  rw [hsame]
  exact ⟨(congrArg Reader.running hq).trans hrunning, rfl, hq, herrors⟩

/-- Five reads: nothing, three bytes, a record with five bytes behind it, a header whose name is missing
and a record behind that, and a record. -/
def garbled : List ((Path → Bool) × Bytes) :=
  let born : Bytes := ( ⟨⟨1⟩, Mask.create, 0, some [0x61]⟩ : Record).kernelBytes
  let nameless : Bytes := ( ⟨⟨1⟩, Mask.create, 0, none⟩ : Record).kernelBytes.set 12 0xFF
  [[], [1, 2, 3], born ++ [1, 0, 0, 0, 0], nameless ++ born, born].map (Prod.mk fun _ => true)

theorem malformed_reads_contained_garbled :
    watchingNested.Serving ∧
      let q := (watchingNested.pollInto [] garbled).1
      q.running = true ∧ q.table = watchingNested.table ∧
      q.events.sent = [⟨⟨[0x2F, 0x74, 0x2F, 0x61]⟩, .create⟩, ⟨⟨[0x2F, 0x74, 0x2F, 0x61]⟩, .create⟩] ∧
      q.errors.sent = [.malformed .emptyRead, .malformed (.shortRead 3),
        .malformed (.truncatedHeader 5 32), .malformed (.truncatedName 255 32 0)] := by
  have serving : watchingNested.Serving :=
    ⟨(WatchTable.paired_empty.insert _ _).insert _ _, rfl, rfl, rfl⟩
  obtain ⟨intakes, -, -, hrunning, -⟩ := malformed_reads_contained serving rfl [] garbled
  exact ⟨serving, hrunning, by cbv, by cbv, by cbv⟩

end Reader

end FileWatch
