import FileWatch.Text.Utf8
import Mathlib.Data.List.Basic
import Mathlib.Data.List.TakeWhile

/-!
# Nothing is lost when bytes are cut

However broken a byte string is, its chunks have its bytes (`bytes_chunks`).  For stray bytes there is
nothing to show.  For a character it has to be shown that it is encoded as it was spelled, and that is
where the bounds on the second byte come in: without them an overlong form, or a surrogate, would be read
as a character that is spelled in another way.
-/

namespace FileWatch.Utf8

/-! ## First bytes -/

/-- How many bytes follow a first byte, which bits it holds, and what it asks of the second byte. -/
theorem lead?_cases {b : UInt8} {l : Lead} (h : lead? b = some l) :
    (l.extra = 1 ∧ b.toNat = 0xC0 + l.bits ∧ 2 ≤ l.bits ∧ l.bits < 0x20 ∧
        0x80 ≤ l.low ∧ l.high ≤ 0xBF) ∨
      (l.extra = 2 ∧ b.toNat = 0xE0 + l.bits ∧ l.bits < 0x10 ∧
        (l.bits = 0 → 0xA0 ≤ l.low) ∧ (l.bits = 13 → l.high ≤ 0x9F) ∧ 0x80 ≤ l.low ∧ l.high ≤ 0xBF) ∨
      (l.extra = 3 ∧ b.toNat = 0xF0 + l.bits ∧ l.bits < 5 ∧
        (l.bits = 0 → 0x90 ≤ l.low) ∧ (l.bits = 4 → l.high ≤ 0x8F) ∧ 0x80 ≤ l.low ∧
        l.high ≤ 0xBF) := by
  unfold lead? at h
  simp only [Bool.and_eq_true, decide_eq_true_eq, beq_iff_eq, UInt8.le_iff_toNat_le,
    ← UInt8.toNat_inj, UInt8.reduceToNat] at h
  split at h
  · cases h
    exact .inl ⟨rfl, by simp only; omega, by simp only; omega, by simp only; omega,
      UInt8.le_refl _, UInt8.le_refl _⟩
  split at h
  · cases h
    exact .inr (.inl ⟨rfl, by simp only; omega, by decide, by decide, by decide, by decide,
      by decide⟩)
  split at h
  · cases h
    exact .inr (.inl ⟨rfl, by simp only; omega, by decide, by decide, by decide, by decide,
      by decide⟩)
  split at h
  · cases h
    refine .inr (.inl ⟨rfl, by simp only; omega, by simp only; omega, fun hbits => ?_,
      fun hbits => ?_, UInt8.le_refl _, UInt8.le_refl _⟩)
    · simp only at hbits
      omega
    · simp only at hbits
      omega
  split at h
  · cases h
    exact .inr (.inr ⟨rfl, by simp only; omega, by decide, by decide, by decide, by decide,
      by decide⟩)
  split at h
  · cases h
    refine .inr (.inr ⟨rfl, by simp only; omega, by simp only; omega, fun hbits => ?_,
      fun hbits => ?_, UInt8.le_refl _, UInt8.le_refl _⟩)
    · simp only at hbits
      omega
    · simp only at hbits
      omega
  split at h
  · cases h
    exact .inr (.inr ⟨rfl, by simp only; omega, by decide, by decide, by decide, by decide,
      by decide⟩)
  · cases h

/-! ## Bytes that follow -/

/-- What follows a first byte stands right behind it. -/
theorem following_append_drop (l : Lead) (rest : List UInt8) :
    following l rest ++ rest.drop (following l rest).length = rest := by
  have hbegins : following l rest <+: rest := by
    unfold following
    cases rest with
    | nil => exact List.prefix_rfl
    | cons b rest =>
      simp only
      split
      · exact (List.prefix_cons_inj b).mpr
          ((List.take_prefix _ _).trans (List.takeWhile_prefix isContinuation))
      · exact List.nil_prefix
  obtain ⟨behind, hbehind⟩ := hbegins
  generalize following l rest = more at *
  rw [← hbehind, List.drop_left]

/-- The second byte keeps to its bounds, and the others are continuations. -/
theorem bounds_of_following {l : Lead} {rest more : List UInt8} {x : UInt8}
    (h : following l rest = x :: more) :
    l.low ≤ x ∧ x ≤ l.high ∧ ∀ y ∈ more, isContinuation y = true := by
  unfold following at h
  cases rest with
  | nil => cases h
  | cons b rest =>
    simp only at h
    split at h
    · rename_i hbounds
      rw [Bool.and_eq_true, decide_eq_true_eq, decide_eq_true_eq] at hbounds
      cases h
      refine ⟨hbounds.1, hbounds.2, fun y hy => ?_⟩
      exact List.mem_takeWhile_imp (List.mem_of_mem_take hy)
    · cases h

theorem isContinuation_iff {b : UInt8} :
    isContinuation b = true ↔ 0x80 ≤ b.toNat ∧ b.toNat ≤ 0xBF := by
  unfold isContinuation
  rw [Bool.and_eq_true, decide_eq_true_eq, decide_eq_true_eq, UInt8.le_iff_toNat_le,
    UInt8.le_iff_toNat_le]
  rfl

theorem toNat_eq_add_payload {b : UInt8} (low : 0x80 ≤ b.toNat) (high : b.toNat ≤ 0xBF) :
    b.toNat = 0x80 + payload b ∧ payload b < 64 := by
  have hpayload : payload b = b.toNat % 64 := by
    unfold payload
    rw [UInt8.toNat_and]
    exact Nat.and_two_pow_sub_one_eq_mod b.toNat 6
  omega

/-! ## Characters -/

theorem toNat_charOfNat {n : Nat} (h : n.isValidChar) : (Char.ofNat n).val.toNat = n := by
  unfold Char.ofNat
  rw [dif_pos h]
  rfl

theorem encode_ascii {b : UInt8} (h : b.toNat < 0x80) :
    String.utf8EncodeChar (Char.ofNat b.toNat) = [b] := by
  have hn := toNat_charOfNat (n := b.toNat) (.inl (by omega))
  unfold String.utf8EncodeChar
  simp only [hn]
  rw [if_pos (by omega), UInt8.ofNat_toNat]

theorem ofNat_eq_of_toNat {b : UInt8} {n : Nat} (h : b.toNat = n) : UInt8.ofNat n = b := by
  rw [← h, UInt8.ofNat_toNat]

/-- The encoding of a character that two bytes spell. -/
theorem encode_two {b x : UInt8} {bits : Nat} (hb : b.toNat = 0xC0 + bits) (low : 2 ≤ bits)
    (high : bits < 0x20) (hx : 0x80 ≤ x.toNat ∧ x.toNat ≤ 0xBF) :
    String.utf8EncodeChar (Char.ofNat (bits * 64 + payload x)) = [b, x] := by
  obtain ⟨hx', hlt⟩ := toNat_eq_add_payload hx.1 hx.2
  generalize payload x = u at hx' hlt
  have hn := toNat_charOfNat (n := bits * 64 + u) (.inl (by omega))
  unfold String.utf8EncodeChar
  simp only [hn]
  rw [if_neg (by omega), if_pos (by omega)]
  simp only [List.cons.injEq, and_true]
  exact ⟨ofNat_eq_of_toNat (by omega), ofNat_eq_of_toNat (by omega)⟩

theorem encode_three {b x y : UInt8} {bits : Nat} (hb : b.toNat = 0xE0 + bits) (high : bits < 0x10)
    (overlong : bits = 0 → 0xA0 ≤ x.toNat) (surrogate : bits = 13 → x.toNat ≤ 0x9F)
    (hx : 0x80 ≤ x.toNat ∧ x.toNat ≤ 0xBF) (hy : 0x80 ≤ y.toNat ∧ y.toNat ≤ 0xBF) :
    String.utf8EncodeChar (Char.ofNat ((bits * 64 + payload x) * 64 + payload y)) = [b, x, y] := by
  obtain ⟨hx', hxlt⟩ := toNat_eq_add_payload hx.1 hx.2
  obtain ⟨hy', hylt⟩ := toNat_eq_add_payload hy.1 hy.2
  generalize payload x = u at hx' hxlt
  generalize payload y = v at hy' hylt
  have hvalid : ((bits * 64 + u) * 64 + v).isValidChar := by
    unfold Nat.isValidChar
    omega
  have hn := toNat_charOfNat hvalid
  unfold String.utf8EncodeChar
  simp only [hn]
  rw [if_neg (by omega), if_neg (by omega), if_pos (by omega)]
  simp only [List.cons.injEq, and_true]
  exact ⟨ofNat_eq_of_toNat (by omega), ofNat_eq_of_toNat (by omega), ofNat_eq_of_toNat (by omega)⟩

theorem encode_four {b x y z : UInt8} {bits : Nat} (hb : b.toNat = 0xF0 + bits) (high : bits < 5)
    (overlong : bits = 0 → 0x90 ≤ x.toNat) (beyond : bits = 4 → x.toNat ≤ 0x8F)
    (hx : 0x80 ≤ x.toNat ∧ x.toNat ≤ 0xBF) (hy : 0x80 ≤ y.toNat ∧ y.toNat ≤ 0xBF)
    (hz : 0x80 ≤ z.toNat ∧ z.toNat ≤ 0xBF) :
    String.utf8EncodeChar
      (Char.ofNat (((bits * 64 + payload x) * 64 + payload y) * 64 + payload z)) = [b, x, y, z] := by
  obtain ⟨hx', hxlt⟩ := toNat_eq_add_payload hx.1 hx.2
  obtain ⟨hy', hylt⟩ := toNat_eq_add_payload hy.1 hy.2
  obtain ⟨hz', hzlt⟩ := toNat_eq_add_payload hz.1 hz.2
  generalize payload x = u at hx' hxlt
  generalize payload y = v at hy' hylt
  generalize payload z = w at hz' hzlt
  have hvalid : (((bits * 64 + u) * 64 + v) * 64 + w).isValidChar := by
    unfold Nat.isValidChar
    omega
  have hn := toNat_charOfNat hvalid
  unfold String.utf8EncodeChar
  simp only [hn]
  rw [if_neg (by omega), if_neg (by omega), if_neg (by omega)]
  simp only [List.cons.injEq, and_true]
  exact ⟨ofNat_eq_of_toNat (by omega), ofNat_eq_of_toNat (by omega), ofNat_eq_of_toNat (by omega),
    ofNat_eq_of_toNat (by omega)⟩

/-- **A character is encoded as it was spelled.** -/
theorem encode_following {b : UInt8} {l : Lead} (hl : lead? b = some l) {rest : List UInt8}
    (complete : (following l rest).length = l.extra) :
    String.utf8EncodeChar
        (Char.ofNat ((following l rest).foldl (fun n x => n * 64 + payload x) l.bits))
      = b :: following l rest := by
  cases hmore : following l rest with
  | nil =>
    rw [hmore] at complete
    rcases lead?_cases hl with ⟨hextra, -⟩ | ⟨hextra, -⟩ | ⟨hextra, -⟩ <;> simp [hextra] at complete
  | cons x more =>
    obtain ⟨hlow, hhigh, hmoreAll⟩ := bounds_of_following hmore
    rw [hmore] at complete
    rw [UInt8.le_iff_toNat_le] at hlow hhigh
    have htail : ∀ y ∈ more, 0x80 ≤ y.toNat ∧ y.toNat ≤ 0xBF :=
      fun y hy => isContinuation_iff.mp (hmoreAll y hy)
    have hcases := lead?_cases hl
    simp only [UInt8.le_iff_toNat_le, UInt8.reduceToNat] at hcases
    rcases hcases with ⟨hextra, hb, hbits, hbits', hl', hh'⟩ |
      ⟨hextra, hb, hbits, hover, hsur, hl', hh'⟩ | ⟨hextra, hb, hbits, hover, hbeyond, hl', hh'⟩
    · obtain rfl : more = [] := by
        rw [hextra] at complete
        simpa using complete
      exact encode_two hb hbits hbits' (by omega)
    · obtain ⟨y, rfl⟩ : ∃ y, more = [y] := by
        rw [hextra] at complete
        exact List.length_eq_one_iff.mp (by simpa using complete)
      have hy := htail y (by simp)
      exact encode_three hb hbits (by omega) (by omega) (by omega) hy
    · obtain ⟨y, z, rfl⟩ : ∃ y z, more = [y, z] := by
        rw [hextra] at complete
        exact List.length_eq_two.mp (by simpa using complete)
      have hy := htail y (by simp)
      have hz := htail z (by simp)
      exact encode_four hb hbits (by omega) (by omega) (by omega) hy hz

/-! ## Chunks -/

/-- A chunk has the bytes that it was cut from. -/
theorem bytes_firstChunk (b : UInt8) (rest : List UInt8) :
    (firstChunk b rest).bytes ++ rest.drop (firstSize b rest - 1) = b :: rest := by
  unfold firstChunk firstSize
  by_cases hascii : b < 0x80
  · rw [if_pos hascii, if_pos hascii]
    have hb : b.toNat < 0x80 := by
      rw [UInt8.lt_iff_toNat_lt] at hascii
      exact hascii
    rw [Chunk.bytes, encode_ascii hb]
    rfl
  rw [if_neg hascii, if_neg hascii]
  cases hl : lead? b with
  | none => rfl
  | some l =>
    simp only [Nat.add_sub_cancel_left]
    have hrest := following_append_drop l rest
    split
    · rename_i hcomplete
      rw [Chunk.bytes, encode_following hl hcomplete, List.cons_append, hrest]
    · rw [Chunk.bytes, List.cons_append, hrest]

/-- **No byte is lost or made up.** -/
theorem bytes_chunks (bs : List UInt8) : (chunks bs).flatMap Chunk.bytes = bs := by
  induction hn : bs.length using Nat.strongRecOn generalizing bs with
  | _ n ih =>
    cases bs with
    | nil => rw [chunks, List.flatMap_nil]
    | cons b rest =>
      have hshorter : (rest.drop (firstSize b rest - 1)).length < n := by
        rw [← hn, List.length_drop, List.length_cons]
        omega
      rw [chunks, List.flatMap_cons, ih _ hshorter _ rfl, bytes_firstChunk]

end FileWatch.Utf8
