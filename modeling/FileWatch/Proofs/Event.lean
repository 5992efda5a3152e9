import FileWatch.Proofs.Mask
import FileWatch.Proofs.Text.Quoted
import FileWatch.Shell.Printer
import Mathlib.Data.List.Basic

/-!
# What the line of an event tells

The line has two parts, the path as a quotation and the operations by name.  The quotation tells the bytes
of the path and where it ends, so that no name of a file can be taken for the operations behind it.  The
names of the operations tell the set, unless it has unknown bits, which are not printed.  So a line tells
all of its event but the unknown bits (`shownBy_eq_iff`), and events without any are told apart by their
lines (`line_identifies`).
-/

namespace FileWatch

open Text

theorem mem_or_eq_of_mem_intercalate {α : Type} {mark x : α} {pieces : List (List α)}
    (h : x ∈ [mark].intercalate pieces) : x = mark ∨ ∃ piece ∈ pieces, x ∈ piece := by
  induction pieces with
  | nil => cases h
  | cons first rest ih =>
    cases rest with
    | nil =>
      rw [List.intercalate_singleton] at h
      exact .inr ⟨first, List.mem_cons_self, h⟩
    | cons next more =>
      rw [List.intercalate_cons_cons, List.append_assoc] at h
      rcases List.mem_append.mp h with h | h
      · exact .inr ⟨first, List.mem_cons_self, h⟩
      rcases List.mem_append.mp h with h | h
      · exact .inl (List.mem_singleton.mp h)
      · rcases ih h with hx | ⟨piece, hpiece, hx⟩
        · exact .inl hx
        · exact .inr ⟨piece, List.mem_cons_of_mem first hpiece, hx⟩

/-! ## Names of operations -/

namespace Ops

/-- Sets without unknown bits are told apart by the operations that have a name. -/
theorem eq_of_contains {a b : Ops} (ha : a.truncate = a) (hb : b.truncate = b)
    (h : ∀ e ∈ shownOrder, a.contains e.2 = b.contains e.2) : a = b := by
  have hnamed : ∀ k < 32, Mask.bit all.bits k = true →
      ∃ e ∈ shownOrder, e.2.bits.toBitVec = BitVec.twoPow 32 k := by decide
  have hunknown : ∀ {s : Ops}, s.truncate = s → ∀ k, Mask.bit all.bits k = false →
      Mask.bit s.bits k = false := by
    intro s hs k hk
    rw [← hs]
    show Mask.bit (s.bits &&& all.bits) k = false
    rw [Mask.bit_and, hk, Bool.and_false]
  suffices hbits : a.bits = b.bits from congrArg Ops.mk hbits
  apply Mask.ext_bit
  intro k
  by_cases hk : Mask.bit all.bits k = true
  · have hlt : k < 32 := by
      by_contra hge
      rw [Mask.bit, BitVec.getLsbD_of_ge _ _ (Nat.le_of_not_lt hge)] at hk
      cases hk
    obtain ⟨e, he, single⟩ := hnamed k hlt hk
    rw [Bool.eq_iff_iff, ← contains_iff_bit single hlt, ← contains_iff_bit single hlt, h e he]
  · rw [Bool.not_eq_true] at hk
    rw [hunknown ha k hk, hunknown hb k hk]

/-- The names that a set is printed with. -/
def shownNames (a : Ops) : List String := (shownOrder.filter fun e => a.contains e.2).map (·.1)

theorem mem_shownNames_iff {a : Ops} {e : String × Ops} (he : e ∈ shownOrder) :
    e.1 ∈ a.shownNames ↔ a.contains e.2 = true := by
  have hdistinct : ∀ e ∈ shownOrder, ∀ f ∈ shownOrder, f.1 = e.1 → f = e := by decide
  unfold shownNames
  rw [List.mem_map]
  constructor
  · rintro ⟨f, hf, hname⟩
    obtain ⟨hmem, hcontains⟩ := List.mem_filter.mp hf
    rw [← hdistinct e he f hmem hname]
    exact hcontains
  · intro hcontains
    exact ⟨e, List.mem_filter.mpr ⟨he, hcontains⟩, rfl⟩

/-- A name is not empty, holds no bar, and stays on its line. -/
theorem name_of_mem_shownNames {a : Ops} {name : String} (h : name ∈ a.shownNames) :
    name.toList ≠ [] ∧ '|' ∉ name.toList ∧ ∀ c ∈ name.toList, StaysOnLine c := by
  have hnames : ∀ e ∈ shownOrder, e.1.toList ≠ [] ∧ '|' ∉ e.1.toList ∧
      e.1.toList.all (fun c => decide (StaysOnLine c)) = true := by decide
  obtain ⟨e, he, rfl⟩ := List.mem_map.mp h
  obtain ⟨hsome, hbar, hline⟩ := hnames e (List.mem_of_mem_filter he)
  exact ⟨hsome, hbar, fun _ => staysOnLine_of_all hline⟩

theorem toList_shown (a : Ops) :
    a.shown.toList = ['|'].intercalate (a.shownNames.map String.toList) := by
  unfold shown
  rw [String.toList_intercalate]
  rfl

/-- The names are read back from the text. -/
theorem shownNames_inj {a b : Ops} (h : a.shown = b.shown) : a.shownNames = b.shownNames := by
  have hpieces : ∀ s : Ops, (s.shown.toList.splitOn '|').filter (· ≠ [])
      = s.shownNames.map String.toList := by
    intro s
    have hname : ∀ cs ∈ s.shownNames.map String.toList, cs ≠ [] ∧ '|' ∉ cs := by
      intro cs hcs
      obtain ⟨name, hmem, rfl⟩ := List.mem_map.mp hcs
      exact ⟨(name_of_mem_shownNames hmem).1, (name_of_mem_shownNames hmem).2.1⟩
    rw [toList_shown]
    cases hnames : s.shownNames.map String.toList with
    | nil => rfl
    | cons first rest =>
      rw [hnames] at hname
      rw [List.splitOn_intercalate '|' (fun cs hcs => (hname cs hcs).2) (List.cons_ne_nil _ _)]
      apply List.filter_eq_self.mpr
      intro cs hcs
      exact decide_eq_true (hname cs hcs).1
  have hboth := hpieces a
  rw [h, hpieces b] at hboth
  exact (List.map_injective_iff.mpr fun _ _ => String.toList_inj.mp) hboth.symm

theorem contains_truncate (a : Ops) {e : String × Ops} (he : e ∈ shownOrder) :
    a.truncate.contains e.2 = a.contains e.2 := by
  have hknown : ∀ e ∈ shownOrder, all.bits &&& e.2.bits = e.2.bits := by decide
  show ((a.bits &&& all.bits) &&& e.2.bits == e.2.bits) = (a.bits &&& e.2.bits == e.2.bits)
  rw [UInt32.and_assoc, hknown e he]

theorem truncate_truncate (a : Ops) : a.truncate.truncate = a.truncate := by
  show (⟨(a.bits &&& all.bits) &&& all.bits⟩ : Ops) = ⟨a.bits &&& all.bits⟩
  rw [UInt32.and_assoc, UInt32.and_self]

/-- The text of a set tells its known operations, and nothing else. -/
theorem shown_eq_iff {a b : Ops} : a.shown = b.shown ↔ a.truncate = b.truncate := by
  constructor
  · intro h
    refine eq_of_contains a.truncate_truncate b.truncate_truncate fun e he => ?_
    rw [contains_truncate a he, contains_truncate b he, Bool.eq_iff_iff, ← mem_shownNames_iff he,
      ← mem_shownNames_iff he, shownNames_inj h]
  · intro h
    have htruncate : ∀ s : Ops, s.truncate.shown = s.shown := fun s => by
      unfold shown
      rw [List.filter_congr fun e he => contains_truncate s he]
    rw [← htruncate a, ← htruncate b, h]

theorem staysOnLine_shown {a : Ops} {c : Char} (h : c ∈ a.shown.toList) : StaysOnLine c := by
  rw [toList_shown] at h
  rcases mem_or_eq_of_mem_intercalate h with rfl | ⟨cs, hcs, hc⟩
  · decide
  · obtain ⟨name, hname, rfl⟩ := List.mem_map.mp hcs
    exact (name_of_mem_shownNames hname).2.2 c hc

end Ops

/-! ## Lines -/

namespace Event

variable (spelled : Char → Bool)

theorem toList_shownBy (e : Event) : (e.shownBy spelled).toList =
    Quoted.bytes spelled e.path.bytes ++ ([':', ' '] ++ e.ops.shown.toList) := by
  unfold shownBy Path.quotedBy
  rw [String.toList_append, String.toList_append, String.toList_ofList, List.append_assoc]
  rfl

/-- An event without operations that have no name. -/
def known (e : Event) : Event := ⟨e.path, e.ops.truncate⟩

/-- The line tells the path and the known operations, and nothing else. -/
theorem shownBy_eq_iff {e e' : Event} : e.shownBy spelled = e'.shownBy spelled ↔ e.known = e'.known := by
  unfold known
  rw [Event.mk.injEq, ← Ops.shown_eq_iff]
  constructor
  · intro h
    have htext := congrArg String.toList h
    rw [toList_shownBy, toList_shownBy] at htext
    obtain ⟨hbytes, hrest⟩ := Quoted.bytes_inj spelled htext
    exact ⟨congrArg Path.mk hbytes, String.toList_inj.mp (List.append_cancel_left hrest)⟩
  · rintro ⟨hpath, hops⟩
    unfold shownBy
    rw [hpath, hops]

theorem staysOnLine_shownBy {e : Event} {c : Char} (h : c ∈ (e.shownBy spelled).toList) :
    StaysOnLine c := by
  rw [toList_shownBy] at h
  rcases List.mem_append.mp h with h | h
  · exact Quoted.staysOnLine_bytes spelled h
  rcases List.mem_append.mp h with h | h
  · exact staysOnLine_of_all (by decide : [':', ' '].all _ = true) h
  · exact Ops.staysOnLine_shown h

theorem toList_pushn (s : String) (c : Char) (n : Nat) :
    (s.pushn c n).toList = s.toList ++ List.replicate n c := by
  rw [String.pushn_eq_repeat_push]
  induction n with
  | zero => exact (List.append_nil _).symm
  | succ n ih =>
    rw [Nat.repeat, String.toList_push, ih, List.append_assoc, List.replicate_succ']

/-- A numbered line of the printer is one line as well. -/
theorem staysOnLine_line {n : Nat} {e : Event} {c : Char} (h : c ∈ (Line.event n e).shown.toList) :
    StaysOnLine c := by
  have hblank : StaysOnLine ' ' := by decide
  unfold Line.shown at h
  simp only [String.toList_append, List.mem_append] at h
  rcases h with ((h | h) | h) | h
  · rw [toList_pushn] at h
    rw [List.eq_of_mem_replicate h]
    exact hblank
  · rw [Nat.toString_eq_repr, Nat.toList_repr] at h
    exact staysOnLine_toDigits (by decide) (by decide) h
  · rw [List.mem_singleton.mp h]
    exact hblank
  · exact staysOnLine_shownBy _ h

/-- **A line tells its event.**  Under any choice of characters to spell as numbers, the lines of two
events without unknown bits are the same only if the paths are the same, byte by byte, and so are the
operations.  And whatever the name of a file is, its line has no line break, neither by itself nor with
the number that the printer puts before it. -/
theorem line_identifies :
    (∀ e e' : Event, e.ops.truncate = e.ops → e'.ops.truncate = e'.ops →
      (e.shownBy spelled = e'.shownBy spelled ↔ e.path.bytes = e'.path.bytes ∧ e.ops = e'.ops)) ∧
    (∀ e : Event, '\n' ∉ (e.shownBy spelled).toList ∧ '\r' ∉ (e.shownBy spelled).toList) ∧
    (∀ (n : Nat) (e : Event), '\n' ∉ (Line.event n e).shown.toList ∧
      '\r' ∉ (Line.event n e).shown.toList) := by
  refine ⟨fun e e' known known' => ?_, fun e => ?_, fun n e => ?_⟩
  · rw [shownBy_eq_iff, Event.known, Event.known, known, known', Event.mk.injEq, Path.mk.injEq]
  · exact ⟨fun h => (staysOnLine_shownBy spelled h).1 rfl,
      fun h => (staysOnLine_shownBy spelled h).2 rfl⟩
  · exact ⟨fun h => (staysOnLine_line h).1 rfl, fun h => (staysOnLine_line h).2 rfl⟩

/-- The name `a` with a stray byte behind it, and the name that spells this out: their lines differ,
whatever else is spelled as a number. -/
theorem line_identifies_lookalikes :
    let stray : Event := ⟨⟨[0x61, 0xFF]⟩, .write⟩
    let literal : Event := ⟨⟨[0x61, 0x5C, 0x78, 0x46, 0x46]⟩, .write⟩
    stray.ops.truncate = stray.ops ∧ literal.ops.truncate = literal.ops ∧
      ∀ spelled, stray.shownBy spelled ≠ literal.shownBy spelled := by
  intro stray literal
  have known : stray.ops.truncate = stray.ops := by decide
  have known' : literal.ops.truncate = literal.ops := by decide
  refine ⟨known, known', fun spelled hsame => ?_⟩
  obtain ⟨hbytes, -⟩ := ((line_identifies spelled).1 stray literal known known').mp hsame
  exact absurd hbytes (by decide)

end Event

end FileWatch
