import FileWatch.Path

/-!
# The order of paths

Paths are put in order by what they say, and what they say is turned into one list of numbers for that.
So nothing may be lost on the way: two paths have the same list only if they say the same.  That is so
because no part has a list that another one's goes on from (`Part.eq_of_prefix`); the zero behind a name is
there for that.

With it the order of paths is a total order, up to spelling.
-/

namespace FileWatch

/-- To come first is to be less or equal in the order of a dictionary. -/
theorem precedes_iff_le (as bs : List Nat) : precedes as bs = true ↔ as.le bs := by
  induction as generalizing bs with
  | nil =>
    constructor
    · intro _
      exact List.nil_le bs
    · intro _
      rfl
  | cons a as ih =>
    cases bs with
    | nil => simp [precedes]
    | cons b bs =>
      have hcons : (a :: as).le (b :: bs) ↔ a < b ∨ a = b ∧ as.le bs := List.cons_le_cons_iff
      rw [hcons, ← ih]
      simp [precedes]

namespace Part

theorem eq_of_prefix_bytes {b c : Bytes}
    (h : b.map (fun x => x.toNat + 1) ++ [0] <+: c.map (fun x => x.toNat + 1) ++ [0]) : b = c := by
  induction b generalizing c with
  | nil =>
    cases c with
    | nil => rfl
    | cons y c => simp at h
  | cons x b ih =>
    cases c with
    | nil => simp at h
    | cons y c =>
      simp only [List.map_cons, List.cons_append, List.cons_prefix_cons, Nat.add_right_cancel_iff] at h
      rw [UInt8.toNat_inj.mp h.1, ih h.2]

/-- No part has a key that the key of another one goes on from. -/
theorem eq_of_prefix {s t : Part} (h : s.sortKey <+: t.sortKey) : s = t := by
  cases s <;> cases t <;> simp [sortKey] at h
  case root.root => rfl
  case here.here => rfl
  case up.up => rfl
  case name.name b c => rw [eq_of_prefix_bytes h]

end Part

namespace Path

theorem eq_of_flatMap_sortKey {ss ts : List Part}
    (h : ss.flatMap Part.sortKey = ts.flatMap Part.sortKey) : ss = ts := by
  have hne : ∀ s : Part, s.sortKey ≠ [] := by
    intro s
    cases s <;> simp [Part.sortKey]
  induction ss generalizing ts with
  | nil =>
    cases ts with
    | nil => rfl
    | cons t ts => simp [hne] at h
  | cons s ss ih =>
    cases ts with
    | nil => simp [hne] at h
    | cons t ts =>
      rw [List.flatMap_cons, List.flatMap_cons] at h
      have hsame : s = t := by
        rcases List.prefix_or_prefix_of_prefix (List.prefix_append _ _)
          (h ▸ List.prefix_append t.sortKey _) with hst | hts
        · exact Part.eq_of_prefix hst
        · exact (Part.eq_of_prefix hts).symm
      rw [hsame] at h ⊢
      rw [ih (List.append_cancel_left h)]

variable {p q r : Path}

/-- Paths that say the same have the same key, and no others do. -/
theorem sortKey_eq_iff : p.sortKey = q.sortKey ↔ (p == q) = true := by
  rw [beq_iff]
  constructor
  · exact eq_of_flatMap_sortKey
  · intro h
    unfold sortKey
    rw [h]

theorem le_iff : p.le q = true ↔ p.sortKey.le q.sortKey := precedes_iff_le _ _

theorem le_total (p q : Path) : p.le q = true ∨ q.le p = true := by
  rw [le_iff, le_iff]
  exact List.le_total _ _

theorem le_trans (h : p.le q = true) (h' : q.le r = true) : p.le r = true := by
  rw [le_iff] at *
  exact List.le_trans h h'

/-- What is not told apart by the order says the same. -/
theorem beq_of_le_of_le (h : p.le q = true) (h' : q.le p = true) : (p == q) = true := by
  rw [le_iff] at h h'
  exact sortKey_eq_iff.mp (List.le_antisymm h h')

end Path

end FileWatch
