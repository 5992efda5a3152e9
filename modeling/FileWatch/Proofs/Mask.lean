import FileWatch.Mask
import Mathlib.Logic.Basic

/-!
# Bits that a mask has

A mask covers some bits when it has all of them; it `has` them when it has any.  Both are said bit by
bit in `covers_iff` and `has_iff`, and everything else about them is logic.

What is asked for and what is reported are two foldings of two tables.  An operation that is reported
comes from one line of the first table (`exists_reported`), a bit that is asked for from one line of
the second (`exists_requested`).  The lines of the two do not match one to one: an arrival is asked for
by a rename and reported as a creation, and that is the only difference (`asked_of_reported`).
-/

namespace FileWatch

namespace Mask

variable {m bits : Mask}

def bit (m : Mask) (i : Nat) : Bool := m.toBitVec.getLsbD i

@[simp] theorem bit_or (a b : Mask) (i : Nat) : (a ||| b).bit i = (a.bit i || b.bit i) := by
  simp [bit]

@[simp] theorem bit_and (a b : Mask) (i : Nat) : (a &&& b).bit i = (a.bit i && b.bit i) := by
  simp [bit]

@[simp] theorem bit_zero (i : Nat) : (0 : Mask).bit i = false := by
  simp [bit]

theorem ext_bit {a b : Mask} (h : ∀ i, a.bit i = b.bit i) : a = b := by
  apply UInt32.toBitVec_inj.mp
  apply BitVec.eq_of_getLsbD_eq
  intro i _
  exact h i

/-! ## Any of the bits -/

theorem has_iff : m.has bits = true ↔ ∃ i, m.bit i = true ∧ bits.bit i = true := by
  unfold has
  rw [bne_iff_ne]
  constructor
  · intro hne
    apply Classical.byContradiction
    intro hnone
    apply hne
    apply ext_bit
    intro i
    rw [bit_and, bit_zero, Bool.and_eq_false_iff]
    by_cases hm : m.bit i = true
    · right
      rw [← Bool.not_eq_true]
      exact fun hb => hnone ⟨i, hm, hb⟩
    · left
      simpa using hm
  · rintro ⟨i, hm, hb⟩ hzero
    have hbit := congrArg (fun x : Mask => x.bit i) hzero
    simp [hm, hb] at hbit

theorem has_or (a b bits : Mask) : (a ||| b).has bits = (a.has bits || b.has bits) := by
  unfold has
  have hand : (a ||| b) &&& bits = (a &&& bits) ||| (b &&& bits) :=
    UInt32.eq_of_toBitVec_eq BitVec.and_or_distrib_right
  rw [hand, Bool.eq_iff_iff, Bool.or_eq_true, bne_iff_ne, bne_iff_ne, bne_iff_ne, ne_eq,
    UInt32.or_eq_zero_iff, not_and_or]

theorem has_or_right (m a b : Mask) : m.has (a ||| b) = (m.has a || m.has b) := by
  unfold has
  have hand : m &&& (a ||| b) = (m &&& a) ||| (m &&& b) :=
    UInt32.eq_of_toBitVec_eq BitVec.and_or_distrib_left
  rw [hand, Bool.eq_iff_iff, Bool.or_eq_true, bne_iff_ne, bne_iff_ne, bne_iff_ne, ne_eq,
    UInt32.or_eq_zero_iff, not_and_or]

/-! ## All of the bits -/

/-- All of the given bits are in the mask. -/
def Covers (m bits : Mask) : Prop := m &&& bits = bits

instance : Decidable (m.Covers bits) := inferInstanceAs (Decidable (m &&& bits = bits))

theorem covers_iff : m.Covers bits ↔ ∀ i, bits.bit i = true → m.bit i = true := by
  unfold Covers
  constructor
  · intro h i hi
    rw [← h, bit_and, Bool.and_eq_true] at hi
    exact hi.1
  · intro h
    apply ext_bit
    intro i
    rw [bit_and]
    by_cases hi : bits.bit i = true
    · simp [hi, h i hi]
    · simp [hi]

theorem Covers.refl (m : Mask) : m.Covers m := covers_iff.mpr fun _ => id

theorem Covers.trans {a b c : Mask} (hab : a.Covers b) (hbc : b.Covers c) : a.Covers c := by
  rw [covers_iff] at *
  exact fun i hi => hab i (hbc i hi)

theorem covers_or_left (a b : Mask) : (a ||| b).Covers a := by
  apply covers_iff.mpr
  intro i hi
  simp [hi]

theorem covers_or_right (a b : Mask) : (a ||| b).Covers b := by
  apply covers_iff.mpr
  intro i hi
  simp [hi]

theorem Covers.and {a b : Mask} (h : a.Covers b) (bits : Mask) :
    (a &&& bits).Covers (b &&& bits) := by
  rw [covers_iff] at *
  intro i hi
  rw [bit_and, Bool.and_eq_true] at hi ⊢
  exact ⟨h i hi.1, hi.2⟩

theorem Covers.or {a b : Mask} (h : a.Covers b) (bits : Mask) :
    (a ||| bits).Covers (b ||| bits) := by
  rw [covers_iff] at *
  intro i hi
  rw [bit_or, Bool.or_eq_true] at hi ⊢
  exact hi.imp_left (h i)

theorem Covers.has {a b : Mask} (h : a.Covers b) (hb : b.has bits = true) : a.has bits = true := by
  rw [covers_iff] at h
  obtain ⟨i, hi, hbits⟩ := has_iff.mp hb
  exact has_iff.mpr ⟨i, h i hi, hbits⟩

theorem covers_and (m bits : Mask) : m.Covers (m &&& bits) := by
  apply covers_iff.mpr
  intro i hi
  rw [bit_and, Bool.and_eq_true] at hi
  exact hi.1

/-- Where two masks have nothing in common, what is in the one is not from the other. -/
theorem has_of_apart {a b : Mask} (apart : a &&& b = 0)
    (h : ((m ||| a) &&& b).has bits = true) : m.has bits = true := by
  obtain ⟨i, hi, hbit⟩ := has_iff.mp h
  rw [bit_and, bit_or, Bool.and_eq_true, Bool.or_eq_true] at hi
  obtain ⟨hm | ha, hb⟩ := hi
  · exact has_iff.mpr ⟨i, hm, hbit⟩
  · have hboth : (a &&& b).bit i = true := by simp [ha, hb]
    rw [apart, bit_zero] at hboth
    cases hboth

end Mask

namespace Ops

variable {a b c : Ops} {k : Nat}

theorem bit_single (single : b.bits.toBitVec = BitVec.twoPow 32 k) (hk : k < 32) (i : Nat) :
    Mask.bit b.bits i = true ↔ k = i := by
  rw [Mask.bit, single, BitVec.getLsbD_twoPow]
  simp [hk]

/-- To contain a single operation is to have its bit. -/
theorem contains_iff_bit (single : b.bits.toBitVec = BitVec.twoPow 32 k) (hk : k < 32) :
    a.contains b = true ↔ Mask.bit a.bits k = true := by
  show (a.bits &&& b.bits == b.bits) = true ↔ _
  rw [beq_iff_eq, ← Mask.Covers, Mask.covers_iff]
  simp [bit_single single hk]

/-- To share a single operation is to contain it. -/
theorem intersects_eq_contains (single : b.bits.toBitVec = BitVec.twoPow 32 k)
    (hk : k < 32) : a.intersects b = a.contains b := by
  rw [Bool.eq_iff_iff, contains_iff_bit single hk]
  show Mask.has a.bits b.bits = true ↔ _
  rw [Mask.has_iff]
  simp [bit_single single hk]

/-- A single operation is in a union only if it is in one of the sets; this is not so for two. -/
theorem contains_union (single : b.bits.toBitVec = BitVec.twoPow 32 k) (hk : k < 32) :
    (a ∪ c).contains b = (a.contains b || c.contains b) := by
  rw [← intersects_eq_contains single hk, ← intersects_eq_contains single hk,
    ← intersects_eq_contains single hk]
  exact Mask.has_or a.bits c.bits b.bits

end Ops

namespace Mask

variable {m bits : Mask}

/-! ## What is reported and what is asked for -/

/-- A bit of a folding comes from where it started, or from a line of the table that applies. -/
theorem bit_foldl {α : Type} (lines : List α) (applies : α → Bool) (bits : α → Mask) (m : Mask)
    (i : Nat) :
    (lines.foldl (fun m e => if applies e then m ||| bits e else m) m).bit i = true ↔
      m.bit i = true ∨ ∃ e ∈ lines, applies e = true ∧ (bits e).bit i = true := by
  induction lines generalizing m with
  | nil => simp
  | cons e rest ih =>
    rw [List.foldl_cons, ih]
    simp only [List.mem_cons, exists_eq_or_imp, ← or_assoc]
    apply or_congr_left
    split
    · rename_i happlies
      simp [happlies]
    · rename_i hnot
      simp [hnot]

theorem bits_ops (m : Mask) : m.ops.bits =
    reported.foldl (fun b e => if m.has e.1 then b ||| e.2.bits else b) 0 := by
  unfold ops
  refine (List.foldl_hom Ops.bits fun s e => ?_).symm
  split <;> rfl

/-- Every bit that is reported is reported. -/
theorem contains_ops {e : Mask × Ops} (he : e ∈ reported) (h : m.has e.1 = true) :
    m.ops.contains e.2 = true := by
  have hcovers : Mask.Covers m.ops.bits e.2.bits := by
    apply covers_iff.mpr
    intro i hi
    rw [bits_ops, bit_foldl]
    exact .inr ⟨e, he, h, hi⟩
  exact beq_iff_eq.mpr hcovers

/-- An operation is reported for a line of the table that has one of the bits. -/
theorem exists_reported {op : Ops} (h : m.ops.intersects op = true) :
    ∃ e ∈ reported, m.has e.1 = true ∧ e.2.intersects op = true := by
  obtain ⟨i, hops, hi⟩ := has_iff.mp (h : Mask.has m.ops.bits op.bits = true)
  rw [bits_ops, bit_foldl, bit_zero] at hops
  rcases hops with hnone | ⟨e, he, hhas, hbit⟩
  · cases hnone
  · exact ⟨e, he, hhas, has_iff.mpr ⟨i, hbit, hi⟩⟩

/-- A bit is asked for by a line of the table whose operations are asked for. -/
theorem exists_requested {a : Ops} (h : (request a).has bits = true) :
    ∃ x ∈ requests, a.contains x.1 = true ∧ x.2.has bits = true := by
  obtain ⟨i, hrequest, hi⟩ := has_iff.mp h
  rw [request, bit_foldl requests (fun x => a.contains x.1) (fun x => x.2), bit_zero] at hrequest
  rcases hrequest with hnone | ⟨x, hx, hcontains, hbit⟩
  · cases hnone
  · exact ⟨x, hx, hcontains, has_iff.mpr ⟨i, hbit, hi⟩⟩

/-- No operation is asked for with a bit that stands in no line of the table. -/
theorem has_request_eq_false (foreign : ∀ x ∈ requests, x.2.has bits = false) (a : Ops) :
    (request a).has bits = false := by
  rw [Bool.eq_false_iff]
  intro hhas
  obtain ⟨x, hx, -, hbit⟩ := exists_requested hhas
  exact Bool.false_ne_true ((foreign x hx).symm.trans hbit)

/-- **What is asked for a union is what is asked for its parts**, since every line of the table of
requests is about a single operation. -/
theorem request_union (a b : Ops) : request (a ∪ b) = request a ||| request b := by
  have hsingle : ∀ x ∈ requests, ∃ k < 32, x.1.bits.toBitVec = BitVec.twoPow 32 k := by decide
  apply ext_bit
  intro i
  rw [Bool.eq_iff_iff, bit_or, Bool.or_eq_true]
  simp only [request, bit_foldl, bit_zero, Bool.false_eq_true, false_or]
  rw [← exists_or]
  refine exists_congr fun x => ?_
  rw [← and_or_left, ← or_and_right]
  refine and_congr_right fun hx => ?_
  obtain ⟨k, hk, single⟩ := hsingle x hx
  rw [Ops.contains_union single hk, Bool.or_eq_true]

/-- No two lines of the table of reports have an operation in common. -/
theorem reported_of_contains {x : String × Ops} (hx : x ∈ Ops.named)
    (h : m.ops.contains x.2 = true) : ∃ e ∈ reported, e.2 = x.2 ∧ m.has e.1 = true := by
  have hlines : ∀ x ∈ Ops.named, x.2.bits ≠ 0 ∧ ∀ e ∈ reported, e.2.intersects x.2 = true →
      e.2 = x.2 := by decide
  obtain ⟨hne, hsame⟩ := hlines x hx
  have hintersects : m.ops.intersects x.2 = true := by
    unfold Ops.contains at h
    unfold Ops.intersects
    rw [eq_of_beq h, bne_iff_ne]
    exact hne
  obtain ⟨e, he, hhas, heq⟩ := exists_reported hintersects
  exact ⟨e, he, hsame e he heq, hhas⟩

/-- Nothing but known operations is reported. -/
theorem all_contains_ops (m : Mask) : Ops.all.contains m.ops = true := by
  have hlines : ∀ e ∈ reported, Mask.Covers Ops.all.bits e.2.bits := by decide
  have hcovers : Mask.Covers Ops.all.bits m.ops.bits := by
    apply covers_iff.mpr
    intro i hi
    rw [bits_ops, bit_foldl, bit_zero] at hi
    rcases hi with hnone | ⟨e, he, -, hbit⟩
    · cases hnone
    · exact covers_iff.mp (hlines e he) i hbit
  exact beq_iff_eq.mpr hcovers

/-- **Where the two tables differ**: what is reported was asked for, or is a creation where a rename was
asked for. -/
theorem asked_of_reported {a : Ops} {e : Mask × Ops} (he : e ∈ reported)
    (h : (request a).has e.1 = true) :
    a.contains e.2 = true ∨ e.2 = .create ∧ a.contains .rename = true := by
  have hlines : ∀ e ∈ reported, ∀ x ∈ requests, x.2.has e.1 = true →
      x.1 = e.2 ∨ e.2 = .create ∧ x.1 = .rename := by decide
  obtain ⟨x, hx, hcontains, hhas⟩ := exists_requested h
  rcases hlines e he x hx hhas with hsame | ⟨hcreate, hrename⟩
  · exact .inl (hsame ▸ hcontains)
  · exact .inr ⟨hcreate, hrename ▸ hcontains⟩

end Mask

end FileWatch
