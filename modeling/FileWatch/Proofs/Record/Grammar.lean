import FileWatch.Proofs.Record.RoundTrip
import Mathlib.Logic.Function.Iterate

/-!
# Reading any bytes whatever

A cursor has to do with whatever a read has brought.  `Spelled` says when some bytes are a record,
and `Breaks` when what is left is none, both without a cursor: by lengths, by the bytes of the four
words, and by the first NUL byte of the name field.  `items_slices` says that a walk over any bytes
cuts them into slices that spell records, as far as that goes, and ends there.

The proof has one step and one induction.  Of the three things that can stand at the front of what is
left, a short header, a short name and a record, `decode` tells which it is (`decode_short`,
`decode_torn`, `decode_whole`); the walk over the rest is `exists_slices`.  That nothing of a slice
lies outside the buffer needs no argument of its own: the slices are cut out of it.
-/

namespace FileWatch

/-- The number that some bytes spell, least byte first. -/
def littleEndian (bytes : Bytes) : Nat := bytes.foldr (fun b n => b.toNat + 2 ^ 8 * n) 0

namespace Record

theorem toNat_wordOf_eq_littleEndian (bytes : Bytes) :
    (wordOf bytes).toNat = littleEndian (bytes.take 4) := by
  rw [toNat_wordOf]
  rcases bytes with _ | ⟨a, _ | ⟨b, _ | ⟨c, _ | ⟨d, rest⟩⟩⟩⟩
  all_goals
    simp [littleEndian]
    try omega

/-- The length of the name field that a header announces. -/
def announced (bytes : Bytes) : Nat := littleEndian ((bytes.drop 12).take 4)

/-- Some bytes are one record: four words, and a name field of the length that the last word says. -/
structure Spelled (r : Record) (slice : Bytes) : Prop where
  length_eq : slice.length = recordHeaderLength + announced slice
  handle_eq : r.handle.id.toUInt32.toNat = littleEndian (slice.take 4)
  mask_eq : r.mask.toNat = littleEndian ((slice.drop 4).take 4)
  cookie_eq : r.cookie.toNat = littleEndian ((slice.drop 8).take 4)
  name_eq : r.name.getD [] = (slice.drop recordHeaderLength).takeWhile (· != 0)
  name_ne_nil : r.name ≠ some []

/-- What is left of a read is no record, and why: its header breaks off, or its name field does. -/
inductive Breaks (left : Bytes) (offset : Nat) : Malformation → Prop
  | header (some_left : left ≠ []) (short : left.length < recordHeaderLength) :
      Breaks left offset (.truncatedHeader left.length offset)
  | name (whole : recordHeaderLength ≤ left.length)
      (torn : left.length - recordHeaderLength < announced left) :
      Breaks left offset
        (.truncatedName (announced left) (left.length - recordHeaderLength) offset)

theorem Breaks.ne_nil {left : Bytes} {offset : Nat} {m : Malformation}
    (h : Breaks left offset m) : left ≠ [] := by
  cases h with
  | header some_left _ => exact some_left
  | name whole _ =>
    rintro rfl
    exact absurd whole (by decide)

end Record

namespace RecordCursor

open Record

/-! ## One record, or none -/

section Decode

variable {rest : Bytes} (offset : Nat)

theorem nameOf_getD (field : Bytes) : (nameOf field).getD [] = field.takeWhile (· != 0) := by
  unfold nameOf
  cases field.takeWhile (· != 0) <;> rfl

theorem nameOf_ne_nil (field : Bytes) : nameOf field ≠ some [] := by
  unfold nameOf
  intro h
  split at h
  · cases h
  · rename_i hname
    rw [Option.some.injEq] at h
    exact hname h

/-- A header that is whole is looked at through itself; the bytes behind it make no difference. -/
theorem announced_take {n : Nat} (hn : recordHeaderLength ≤ n) :
    announced (rest.take n) = announced rest := by
  have h16 : recordHeaderLength = 16 := rfl
  unfold announced
  rw [List.drop_take, List.take_take, Nat.min_eq_left (by omega)]

theorem wordOf_header : (wordOf ((rest.take recordHeaderLength).drop 12)).toNat
    = announced rest := by
  rw [toNat_wordOf_eq_littleEndian]
  show announced (rest.take recordHeaderLength) = announced rest
  exact announced_take (Nat.le_refl _)

theorem decode_short (h : rest.length < recordHeaderLength) :
    decode rest offset = .error (.truncatedHeader rest.length offset) := by
  have hlen : (rest.take recordHeaderLength).length = rest.length := by
    rw [List.length_take]
    omega
  unfold decode
  simp only [hlen]
  rw [if_pos h]

theorem length_header_of_le (h : recordHeaderLength ≤ rest.length) :
    ¬ (rest.take recordHeaderLength).length < recordHeaderLength := by
  rw [List.length_take]
  omega

/-- No length that fits a word makes a size that does not fit a word of twice its width. -/
theorem not_size_le : ¬ UInt64.size ≤ recordHeaderLength
    + (wordOf ((rest.take recordHeaderLength).drop 12)).toNat := by
  have hword := (wordOf ((rest.take recordHeaderLength).drop 12)).toNat_lt
  have h16 : recordHeaderLength = 16 := rfl
  have hsize : UInt64.size = 2 ^ 64 := rfl
  omega

theorem length_field : ((rest.drop recordHeaderLength).take
      (wordOf ((rest.take recordHeaderLength).drop 12)).toNat).length
    = min (announced rest) (rest.length - recordHeaderLength) := by
  rw [List.length_take, List.length_drop, wordOf_header]

theorem decode_torn (h : recordHeaderLength ≤ rest.length)
    (torn : rest.length - recordHeaderLength < announced rest) :
    decode rest offset
      = .error (.truncatedName (announced rest) (rest.length - recordHeaderLength) offset) := by
  unfold decode
  simp only
  rw [if_neg (length_header_of_le h), if_neg not_size_le, length_field, wordOf_header,
    Nat.min_eq_right (Nat.le_of_lt torn), if_pos torn]

/-- The record that the bytes at the front spell, where they spell one. -/
theorem decode_whole (h : recordHeaderLength + announced rest ≤ rest.length) :
    ∃ r, Spelled r (rest.take (recordHeaderLength + announced rest)) ∧
      decode rest offset = .ok (r, recordHeaderLength + announced rest) := by
  have h16 : recordHeaderLength = 16 := rfl
  refine ⟨⟨⟨(wordOf (rest.take recordHeaderLength)).toInt32⟩,
    wordOf ((rest.take recordHeaderLength).drop 4), wordOf ((rest.take recordHeaderLength).drop 8),
    nameOf ((rest.drop recordHeaderLength).take (announced rest))⟩, ?_, ?_⟩
  · -- Each word of the header is the same four bytes, cut out of the slice or out of the header.
    have hword : ∀ k, k + 4 ≤ 16 →
        (wordOf ((rest.take recordHeaderLength).drop k)).toNat
          = littleEndian (((rest.take (recordHeaderLength + announced rest)).drop k).take 4) := by
      intro k hk
      rw [toNat_wordOf_eq_littleEndian, List.drop_take, List.drop_take, List.take_take,
        List.take_take, Nat.min_eq_left (by omega), Nat.min_eq_left (by omega)]
    constructor
    · rw [announced_take (Nat.le_add_right _ _), List.length_take, Nat.min_eq_left h]
    · simpa using hword 0 (by omega)
    · exact hword 4 (by omega)
    · exact hword 8 (by omega)
    · rw [nameOf_getD, List.drop_take, Nat.add_sub_cancel_left]
    · exact nameOf_ne_nil _
  · have hfield : ¬ min (announced rest) (rest.length - recordHeaderLength) < announced rest := by
      omega
    unfold decode
    simp only
    rw [if_neg (length_header_of_le (by omega)), if_neg not_size_le, length_field, wordOf_header,
      if_neg hfield, if_neg (by omega)]

end Decode

/-! ## A walk over any bytes -/

/-- The records of some slices, each with the cursor behind its slice. -/
def passed (offset : Nat) : List (Record × Bytes) → Bytes →
    List (Except Malformation Record × RecordCursor)
  | [], _ => []
  | s :: more, left =>
    (.ok s.1, ⟨more.flatMap (·.2) ++ left, offset + s.2.length, false⟩)
      :: passed (offset + s.2.length) more left

theorem passed_offset_le {offset : Nat} {slices : List (Record × Bytes)} {left : Bytes}
    {x : Except Malformation Record × RecordCursor} (h : x ∈ passed offset slices left) :
    x.2.offset ≤ offset + (slices.flatMap (·.2)).length := by
  induction slices generalizing offset with
  | nil => cases h
  | cons s more ih =>
    rw [List.flatMap_cons, List.length_append]
    rcases List.mem_cons.mp h with rfl | hmore
    · show offset + s.2.length ≤ _
      omega
    · have := ih hmore
      omega

theorem passed_ok {offset : Nat} {slices : List (Record × Bytes)} {left : Bytes}
    {x : Except Malformation Record × RecordCursor} (h : x ∈ passed offset slices left) :
    ∃ r, x.1 = .ok r := by
  induction slices generalizing offset with
  | nil => cases h
  | cons s more ih =>
    rcases List.mem_cons.mp h with rfl | hmore
    · exact ⟨s.1, rfl⟩
    · exact ih hmore

theorem length_passed (offset : Nat) (slices : List (Record × Bytes)) (left : Bytes) :
    (passed offset slices left).length = slices.length := by
  induction slices generalizing offset with
  | nil => rfl
  | cons s more ih => rw [passed, List.length_cons, List.length_cons, ih]

/-- Every slice is as long as a header at least. -/
theorem header_le_of_spelled {slices : List (Record × Bytes)}
    (spelled : ∀ s ∈ slices, Spelled s.1 s.2) :
    recordHeaderLength * slices.length ≤ (slices.flatMap (·.2)).length := by
  induction slices with
  | nil => exact Nat.zero_le _
  | cons s more ih =>
    have hmore := ih fun s' hs' => spelled s' (List.mem_cons_of_mem _ hs')
    have hs := (spelled s List.mem_cons_self).length_eq
    rw [List.flatMap_cons, List.length_append, List.length_cons, Nat.mul_succ]
    omega

theorem passed_increasing {offset : Nat} {slices : List (Record × Bytes)} {left : Bytes}
    (spelled : ∀ s ∈ slices, Spelled s.1 s.2) :
    (offset :: (passed offset slices left).map (·.2.offset)).Pairwise (· < ·) := by
  induction slices generalizing offset with
  | nil => exact List.pairwise_singleton _ _
  | cons s more ih =>
    have htail : ((offset + s.2.length) :: (passed (offset + s.2.length) more left).map
        fun x => x.2.offset).Pairwise (· < ·) :=
      ih fun s' hs' => spelled s' (List.mem_cons_of_mem _ hs')
    have hpos : 0 < s.2.length := by
      have h16 : recordHeaderLength = 16 := rfl
      rw [(spelled s List.mem_cons_self).length_eq]
      omega
    rw [passed, List.map_cons, List.pairwise_cons]
    refine ⟨?_, htail⟩
    intro o ho
    rcases List.mem_cons.mp ho with rfl | hmore
    · show offset < offset + s.2.length
      omega
    · have := (List.pairwise_cons.mp htail).1 o hmore
      omega

/-- **A walk cuts slices off the front as long as they spell records.**  By induction on how much is
left: a slice that is cut off is not empty. -/
theorem exists_slices (rest : Bytes) (offset : Nat) :
    ∃ (slices : List (Record × Bytes)) (left : Bytes) (bad : Option Malformation),
      rest = slices.flatMap (·.2) ++ left ∧
      (∀ s ∈ slices, Spelled s.1 s.2) ∧
      (bad = none ↔ left = []) ∧
      (∀ m, bad = some m → Breaks left (offset + (slices.flatMap (·.2)).length) m) ∧
      items ⟨rest, offset, false⟩ = passed offset slices left ++ bad.toList.map fun m =>
        (.error m, ⟨left, offset + (slices.flatMap (·.2)).length, true⟩) := by
  induction hn : rest.length using Nat.strongRecOn generalizing rest offset with
  | _ n ih =>
    have stops : ∀ m, Breaks rest offset m → decode rest offset = .error m →
        items ⟨rest, offset, false⟩ = [(.error m, ⟨rest, offset, true⟩)] := by
      intro m hbreaks hdecode
      have hnext : next? ⟨rest, offset, false⟩ = some (.error m, ⟨rest, offset, true⟩) := by
        unfold next?
        simp [hbreaks.ne_nil, hdecode]
      rw [items_of_next? hnext, items_of_next?_none rfl]
    by_cases hnil : rest = []
    · subst hnil
      exact ⟨[], [], none, rfl, nofun, by simp, nofun, items_nil offset⟩
    by_cases hshort : rest.length < recordHeaderLength
    · have hbreaks : Breaks rest offset _ := .header hnil hshort
      refine ⟨[], rest, some _, rfl, nofun, by simp [hnil], ?_, stops _ hbreaks ?_⟩
      · rintro m ⟨⟩
        exact hbreaks
      · exact decode_short offset hshort
    by_cases htorn : rest.length - recordHeaderLength < announced rest
    · have hbreaks : Breaks rest offset _ := .name (Nat.le_of_not_lt hshort) htorn
      refine ⟨[], rest, some _, rfl, nofun, by simp [hnil], ?_, stops _ hbreaks ?_⟩
      · rintro m ⟨⟩
        exact hbreaks
      · exact decode_torn offset (Nat.le_of_not_lt hshort) htorn
    -- A record stands at the front; the walk goes on behind it.
    have hfits : recordHeaderLength + announced rest ≤ rest.length := by omega
    obtain ⟨r, hspelled, hdecode⟩ := decode_whole offset hfits
    generalize hsize : recordHeaderLength + announced rest = size at hspelled hdecode hfits
    have hpos : 0 < size := by
      have h16 : recordHeaderLength = 16 := rfl
      omega
    have hslice : (rest.take size).length = size := by rw [List.length_take, Nat.min_eq_left hfits]
    have hnext : next? ⟨rest, offset, false⟩
        = some (.ok r, ⟨rest.drop size, offset + size, false⟩) := by
      unfold next?
      simp [hnil, hdecode]
    obtain ⟨slices, left, bad, hrest, hall, hbad, hbreaks, hitems⟩ :=
      ih (rest.drop size).length (by rw [List.length_drop]; omega) (rest.drop size)
        (offset + size) rfl
    refine ⟨(r, rest.take size) :: slices, left, bad, ?_, ?_, hbad, ?_, ?_⟩
    · rw [List.flatMap_cons, List.append_assoc, ← hrest, List.take_append_drop]
    · intro s hs
      rcases List.mem_cons.mp hs with rfl | hs
      · exact hspelled
      · exact hall s hs
    · intro m hm
      rw [List.flatMap_cons, List.length_append, hslice, ← Nat.add_assoc]
      exact hbreaks m hm
    · rw [items_of_next? hnext, hitems, passed, hslice, hrest, List.flatMap_cons,
        List.length_append, hslice, ← Nat.add_assoc, List.cons_append]

/-! ## One call after the other -/

/-- The cursor after a call for the next item; a call that yields nothing changes nothing. -/
def advance (c : RecordCursor) : RecordCursor := (c.next?.map (·.2)).getD c

/-- A call yields the item whose turn it is, and nothing once they have all been yielded. -/
theorem next?_advance (c : RecordCursor) (k : Nat) : (advance^[k] c).next? = c.items[k]? := by
  induction k generalizing c with
  | zero =>
    cases h : c.next? with
    | none => rw [items_of_next?_none h, Function.iterate_zero_apply, h]; rfl
    | some x => rw [items_of_next? h, Function.iterate_zero_apply, h]; rfl
  | succ k ih =>
    rw [Function.iterate_succ_apply, ih]
    cases h : c.next? with
    | none =>
      rw [show c.advance = c by rw [advance, h]; rfl, items_of_next?_none h]
      rfl
    | some x =>
      rw [show c.advance = x.2 by rw [advance, h]; rfl, items_of_next? h]
      rfl

/-- **A walk over any bytes.**  The bytes are slices that spell records, and what is left behind them.
The cursor yields the records of the slices, each with the place behind its slice, and if anything is
left, one error with the place where it begins: it is then less than a header, or less than its
header announces.  So the places go forward and stay within the bytes, the items are few, and no
other error occurs.  The items are what one call after the other yields; later calls yield nothing. -/
theorem items_slices (bytes : Bytes) :
    ∃ (slices : List (Record × Bytes)) (left : Bytes) (bad : Option Malformation),
      bytes = slices.flatMap (·.2) ++ left ∧
      (∀ s ∈ slices, Spelled s.1 s.2) ∧
      (start bytes).items = passed 0 slices left ++ bad.toList.map (fun m =>
        (.error m, ⟨left, (slices.flatMap (·.2)).length, true⟩)) ∧
      (bad = none ↔ left = []) ∧
      (∀ m, bad = some m → Breaks left (slices.flatMap (·.2)).length m) ∧
      (start bytes).items.length ≤ bytes.length / recordHeaderLength + 1 ∧
      (0 :: (passed 0 slices left).map (·.2.offset)).Pairwise (· < ·) ∧
      (∀ x ∈ (start bytes).items, x.2.offset ≤ bytes.length) ∧
      (∀ x ∈ (start bytes).items, ∀ n,
        x.1 ≠ .error (.overlongName n) ∧ x.1 ≠ .error (.standstill n)) ∧
      (∀ k, (advance^[k] (start bytes)).next? = (start bytes).items[k]?) := by
  obtain ⟨slices, left, bad, hbytes, hspelled, hbad, hbreaks, hitems⟩ := exists_slices bytes 0
  simp only [Nat.zero_add] at hbreaks hitems
  have hlength : bytes.length = (slices.flatMap (·.2)).length + left.length := by
    rw [← List.length_append, ← hbytes]
  refine ⟨slices, left, bad, hbytes, hspelled, hitems, hbad, hbreaks, ?_,
    passed_increasing hspelled, ?_, ?_, next?_advance _⟩
  · have hslices := header_le_of_spelled hspelled
    have hfew : slices.length ≤ bytes.length / recordHeaderLength := by
      rw [Nat.le_div_iff_mul_le (by decide), Nat.mul_comm]
      omega
    have hone : bad.toList.length ≤ 1 := by cases bad <;> simp
    rw [start, hitems, List.length_append, length_passed, List.length_map]
    omega
  · intro x hx
    rw [start, hitems, List.mem_append] at hx
    rcases hx with hx | hx
    · have := passed_offset_le hx
      omega
    · obtain ⟨m, -, rfl⟩ := List.mem_map.mp hx
      show (slices.flatMap (·.2)).length ≤ _
      omega
  · intro x hx n
    rw [start, hitems, List.mem_append] at hx
    rcases hx with hx | hx
    · obtain ⟨r, hr⟩ := passed_ok hx
      rw [hr]
      constructor <;> rintro ⟨⟩
    · obtain ⟨m, hm, rfl⟩ := List.mem_map.mp hx
      cases hbreaks m (Option.mem_toList.mp hm) with
      | header => constructor <;> rintro ⟨⟩
      | name => constructor <;> rintro ⟨⟩

end RecordCursor

end FileWatch
