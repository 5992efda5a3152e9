import FileWatch.Proofs.Text.Utf8
import FileWatch.Proofs.Toml.Digits
import FileWatch.Text.Quoted

/-!
# A quotation is read back

A quotation is written piece by piece: each character, and each stray byte.  What is written for a piece
can be read off the front of what follows (`readAtom?_writeAtom`): a backslash tells that there is an
escape, and the character behind it tells where the escape ends.  Nothing that is written for a piece
starts with a quotation mark.  So a quotation says where it ends and which pieces it has, whatever stands
behind it, and from the pieces the bytes are put together again (`bytes_inj`).

All this holds under any choice of characters to spell as numbers.
-/

namespace FileWatch

/-! ## Pieces -/

/-- The least piece of a byte string that is written by itself. -/
inductive Atom where
  | char (c : Char)
  /-- A stray byte. -/
  | byte (b : UInt8)
deriving DecidableEq, Repr

/-- The bytes of a piece. -/
def Atom.bytes : Atom → List UInt8
  | .char c => String.utf8EncodeChar c
  | .byte b => [b]

/-- The pieces of a chunk. -/
def Utf8.Chunk.atoms : Utf8.Chunk → List Atom
  | .char c => [.char c]
  | .stray bs => bs.map .byte

namespace Quoted

/-- The pieces of a byte string. -/
def atoms (bs : List UInt8) : List Atom := (Utf8.chunks bs).flatMap Utf8.Chunk.atoms

theorem bytes_atoms (bs : List UInt8) : (atoms bs).flatMap Atom.bytes = bs := by
  have hchunk : ∀ k : Utf8.Chunk, k.atoms.flatMap Atom.bytes = k.bytes := by
    intro k
    cases k with
    | char c => exact List.flatMap_singleton Atom.bytes (.char c)
    | stray bs =>
      rw [Utf8.Chunk.atoms, List.flatMap_map]
      exact List.flatMap_singleton' bs
  rw [atoms, List.flatMap_assoc]
  simp only [hchunk]
  exact Utf8.bytes_chunks bs

variable (spelled : Char → Bool)

/-- How a piece is written inside a quotation. -/
def writeAtom : Atom → List Char
  | .char c => writeChar spelled c
  | .byte b => writeByte b

theorem bytes_eq_atoms (bs : List UInt8) :
    bytes spelled bs = '"' :: (atoms bs).flatMap (writeAtom spelled) ++ ['"'] := by
  have hchunk : ∀ k : Utf8.Chunk, k.atoms.flatMap (writeAtom spelled) = writeChunk spelled k := by
    intro k
    cases k with
    | char c => exact List.flatMap_singleton (writeAtom spelled) (.char c)
    | stray bs =>
      rw [Utf8.Chunk.atoms, List.flatMap_map]
      rfl
  rw [bytes, atoms, List.flatMap_assoc]
  simp only [hchunk]

/-! ## Reading a piece -/

/-- A piece off the front of a text behind a backslash. -/
def readEscape? : List Char → Option (Atom × List Char)
  | '0' :: rest => some (.char '\x00', rest)
  | 't' :: rest => some (.char '\t', rest)
  | 'r' :: rest => some (.char '\r', rest)
  | 'n' :: rest => some (.char '\n', rest)
  | '"' :: rest => some (.char '"', rest)
  | '\\' :: rest => some (.char '\\', rest)
  | 'x' :: high :: low :: rest => some (.byte (UInt8.ofNat (Toml.numeral 16 [high, low])), rest)
  | 'u' :: '\x7b' :: rest =>
    some (.char (Char.ofNat (Toml.numeral 16 (rest.takeWhile (· != '\x7d')))),
      (rest.dropWhile (· != '\x7d')).drop 1)
  | _ => none

/-- A piece off the front of a text. -/
def readAtom? : List Char → Option (Atom × List Char)
  | [] => none
  | c :: rest => if c = '\\' then readEscape? rest else some (.char c, rest)

theorem takeWhile_hexDigits (n : Nat) (rest : List Char) :
    (hexDigits n ++ '\x7d' :: rest).takeWhile (· != '\x7d') = hexDigits n ∧
      (hexDigits n ++ '\x7d' :: rest).dropWhile (· != '\x7d') = '\x7d' :: rest := by
  have hdigits : ∀ c ∈ hexDigits n, (c != '\x7d') = true := by
    intro c hc
    rw [bne_iff_ne]
    rintro rfl
    exact absurd (Toml.isDigitOf_of_mem_toDigits (by decide) (by decide) hc) (by decide)
  rw [List.takeWhile_append_of_pos hdigits, List.dropWhile_append_of_pos hdigits]
  simp

theorem numeral_byteDigits (b : UInt8) : Toml.numeral 16 (byteDigits b) = b.toNat := by
  have hdigit : ∀ n < 16,
      Toml.digitValue (Char.ofNat (if n < 10 then 48 + n else 55 + n)) = n := by decide
  have hlt := b.toNat_lt
  rw [byteDigits, show ∀ x y : Char, [x, y] = [x] ++ [y] from fun _ _ => rfl, Toml.numeral_concat,
    hdigit _ (by omega), ← List.nil_append [_], Toml.numeral_concat, hdigit _ (by omega)]
  show (0 * 16 + b.toNat / 16) * 16 + b.toNat % 16 = b.toNat
  omega

/-- **What was written for a piece is read back**, whatever follows. -/
theorem readAtom?_writeAtom (a : Atom) (rest : List Char) :
    readAtom? (writeAtom spelled a ++ rest) = some (a, rest) := by
  cases a with
  | byte b =>
    show readEscape? ('x' :: (byteDigits b ++ rest)) = _
    have hnumeral := numeral_byteDigits b
    unfold byteDigits at hnumeral ⊢
    simp only [List.cons_append, List.nil_append, readEscape?, hnumeral, UInt8.ofNat_toNat]
  | char c =>
    show readAtom? (writeChar spelled c ++ rest) = _
    unfold writeChar
    iterate 6
      split
      · rename_i hc
        rw [hc]
        rfl
    rename_i hbackslash
    split
    · have hbehind := takeWhile_hexDigits c.toNat rest
      show readEscape? ('u' :: '\x7b' :: (hexDigits c.toNat ++ ['\x7d'] ++ rest)) = _
      rw [List.append_assoc, List.singleton_append, readEscape?, hbehind.1, hbehind.2, hexDigits,
        Toml.numeral_toDigits (by decide) (by decide), Char.ofNat_toNat]
      rfl
    · show (if c = '\\' then _ else _) = _
      rw [if_neg hbackslash]
      rfl

/-- Nothing that is written for a piece can be taken for the closing mark. -/
theorem writeAtom_eq_cons (a : Atom) : ∃ c more, writeAtom spelled a = c :: more ∧ c ≠ '"' := by
  cases a with
  | byte b => exact ⟨_, _, rfl, by decide⟩
  | char c =>
    show ∃ d more, writeChar spelled c = d :: more ∧ d ≠ '"'
    unfold writeChar
    iterate 4
      split
      · exact ⟨_, _, rfl, by decide⟩
    split
    · exact ⟨_, _, rfl, by decide⟩
    rename_i hmark
    split
    · exact ⟨_, _, rfl, by decide⟩
    split
    · exact ⟨_, _, rfl, by decide⟩
    · exact ⟨_, _, rfl, hmark⟩

/-! ## Reading a quotation -/

/-- What stands up to the closing mark tells the pieces. -/
theorem writeAtoms_inj {as bs : List Atom} {s t : List Char}
    (h : as.flatMap (writeAtom spelled) ++ '"' :: s = bs.flatMap (writeAtom spelled) ++ '"' :: t) :
    as = bs ∧ s = t := by
  induction as generalizing bs with
  | nil =>
    cases bs with
    | nil => exact ⟨rfl, (List.cons.inj h).2⟩
    | cons b bs =>
      obtain ⟨c, more, hb, hc⟩ := writeAtom_eq_cons spelled b
      rw [List.flatMap_nil, List.nil_append, List.flatMap_cons, hb, List.cons_append,
        List.cons_append] at h
      exact absurd (List.cons.inj h).1.symm hc
  | cons a as ih =>
    cases bs with
    | nil =>
      obtain ⟨c, more, ha, hc⟩ := writeAtom_eq_cons spelled a
      rw [List.flatMap_nil, List.nil_append, List.flatMap_cons, ha, List.cons_append,
        List.cons_append] at h
      exact absurd (List.cons.inj h).1 hc
    | cons b bs =>
      rw [List.flatMap_cons, List.flatMap_cons, List.append_assoc, List.append_assoc] at h
      have hread := congrArg readAtom? h
      rw [readAtom?_writeAtom, readAtom?_writeAtom, Option.some.injEq, Prod.mk.injEq] at hread
      obtain ⟨hab, hrest⟩ := hread
      obtain ⟨has, hst⟩ := ih hrest
      exact ⟨by rw [hab, has], hst⟩

/-- **A quotation tells the bytes that it quotes, and where it ends.** -/
theorem bytes_inj {bs cs : List UInt8} {s t : List Char}
    (h : bytes spelled bs ++ s = bytes spelled cs ++ t) : bs = cs ∧ s = t := by
  rw [bytes_eq_atoms, bytes_eq_atoms, List.cons_append, List.cons_append, List.append_assoc,
    List.append_assoc, List.singleton_append, List.singleton_append] at h
  obtain ⟨hatoms, hrest⟩ := writeAtoms_inj spelled (List.cons.inj h).2
  refine ⟨?_, hrest⟩
  rw [← bytes_atoms bs, hatoms, bytes_atoms]

/-! ## Lines -/

end Quoted

namespace Text

/-- A character that stays on its line. -/
def StaysOnLine (c : Char) : Prop := c ≠ '\n' ∧ c ≠ '\r'

instance (c : Char) : Decidable (StaysOnLine c) := inferInstanceAs (Decidable (_ ∧ _))

theorem staysOnLine_of_all {cs : List Char} (h : cs.all (fun c => decide (StaysOnLine c)) = true)
    {c : Char} (hc : c ∈ cs) : StaysOnLine c := of_decide_eq_true (List.all_eq_true.mp h c hc)

theorem staysOnLine_toDigits {base n : Nat} (hbase : 1 < base) (hbase' : base ≤ 16) {c : Char}
    (h : c ∈ Nat.toDigits base n) : StaysOnLine c := by
  have hdigit := Toml.isDigitOf_of_mem_toDigits hbase hbase' h
  unfold Toml.isDigitOf at hdigit
  constructor
  · rintro rfl
    exact absurd hdigit (by simp [Toml.isDecimal])
  · rintro rfl
    exact absurd hdigit (by simp [Toml.isDecimal])

end Text

namespace Quoted

open Text

variable (spelled : Char → Bool)

theorem staysOnLine_byteDigits {b : UInt8} {c : Char} (h : c ∈ byteDigits b) : StaysOnLine c := by
  have hdigit : ∀ n < 16, StaysOnLine (Char.ofNat (if n < 10 then 48 + n else 55 + n)) := by decide
  have hlt := b.toNat_lt
  simp only [byteDigits, List.mem_cons, List.not_mem_nil, or_false] at h
  rcases h with rfl | rfl
  · exact hdigit _ (by omega)
  · exact hdigit _ (by omega)

theorem staysOnLine_writeAtom {a : Atom} {c : Char} (h : c ∈ writeAtom spelled a) :
    StaysOnLine c := by
  cases a with
  | byte b =>
    rcases List.mem_cons.mp h with rfl | h
    · decide
    rcases List.mem_cons.mp h with rfl | h
    · decide
    · exact staysOnLine_byteDigits h
  | char d =>
    have hpair : ∀ e : Char, StaysOnLine e → c ∈ ['\\', e] → StaysOnLine c := by
      intro e he hc
      rcases List.mem_cons.mp hc with rfl | hc
      · decide
      · rw [List.mem_singleton.mp hc]
        exact he
    change c ∈ writeChar spelled d at h
    unfold writeChar at h
    split at h
    · exact hpair '0' (by decide) h
    split at h
    · exact hpair 't' (by decide) h
    split at h
    · exact hpair 'r' (by decide) h
    rename_i hreturn
    split at h
    · exact hpair 'n' (by decide) h
    rename_i hfeed
    split at h
    · exact hpair '"' (by decide) h
    split at h
    · exact hpair '\\' (by decide) h
    split at h
    · unfold numbered at h
      rcases List.mem_append.mp h with h | h
      · rcases List.mem_append.mp h with h | h
        · exact staysOnLine_of_all (by decide) h
        · exact staysOnLine_toDigits (by decide) (by decide) h
      · rw [List.mem_singleton.mp h]
        decide
    · rw [List.mem_singleton.mp h]
      exact ⟨hfeed, hreturn⟩

/-- **A quotation is one line.** -/
theorem staysOnLine_bytes {bs : List UInt8} {c : Char} (h : c ∈ bytes spelled bs) :
    StaysOnLine c := by
  rw [bytes_eq_atoms, List.cons_append] at h
  rcases List.mem_cons.mp h with rfl | h
  · decide
  rcases List.mem_append.mp h with h | h
  · obtain ⟨a, -, ha⟩ := List.mem_flatMap.mp h
    exact staysOnLine_writeAtom spelled ha
  · rw [List.mem_singleton.mp h]
    decide

end Quoted

end FileWatch
