import FileWatch.Proofs.Dict
import FileWatch.WatchTable

/-!
# The two maps of a table are inverse

`Paired` says what the table promises: a handle stands for a path exactly when the path has that
handle.  Equal sizes, which is all that can be looked at while the table is in use, follow from it
(`Paired.size_eq`) and do not imply it.

`insert` is where the promise could break.  It may meet a path that changes its handle, a handle
that changes its path, or both at once, and it mends the two maps one after the other.  So each map
gets one equation for what it says afterwards (`resolve?_insert`, `Paired.entry?_insert`), and
`Paired.insert` compares the two equations.  The second needs the promise, because `insert` finds
the path to throw out through the *other* map.

`removeHandle` throws out one pair.  Under the promise it is a filter on both maps, `without`, and
filters compose; that is the form in which a sequence of removals is read.
-/

namespace FileWatch

namespace WatchTable

/-- A handle stands for a path exactly when the path has that handle. -/
def Paired (t : WatchTable) : Prop := ∀ p h, t.owns p h = true ↔ t.handleOf? p = some h

/-- The table without the watches of some handles. -/
def without (t : WatchTable) (gone : List Handle) : WatchTable :=
  ⟨t.byPath.filter fun _ w => decide (w.handle ∉ gone),
    t.byHandle.filter fun h _ => decide (h ∉ gone)⟩

theorem owns_iff {t : WatchTable} {p : Path} {h : Handle} :
    t.owns p h = true ↔ ∃ q, t.resolve? h = some q ∧ (q == p) = true := by
  unfold owns
  cases t.resolve? h <;> simp

theorem handleOf?_eq_some_iff {t : WatchTable} {p : Path} {h : Handle} :
    t.handleOf? p = some h ↔ ∃ w, t.entry? p = some w ∧ w.handle = h := by
  unfold handleOf?
  exact Option.map_eq_some_iff

theorem handleOf?_congr {t : WatchTable} {p q : Path} (h : (p == q) = true) :
    t.handleOf? p = t.handleOf? q := by
  unfold handleOf? entry?
  rw [Dict.find?_congr h]

theorem paired_empty : empty.Paired := by
  intro p h
  simp [owns, resolve?, handleOf?, entry?, empty, EmptyCollection.emptyCollection]

/-! ## What the promise gives -/

section Consequences

variable {t : WatchTable}

theorem Paired.resolve?_iff (paired : t.Paired) (p : Path) (h : Handle) :
    (∃ q, t.resolve? h = some q ∧ (q == p) = true) ↔ ∃ w, t.entry? p = some w ∧ w.handle = h := by
  rw [← owns_iff, ← handleOf?_eq_some_iff]
  exact paired p h

theorem Paired.handleOf?_of_resolve? (paired : t.Paired) {h : Handle} {q : Path}
    (hq : t.resolve? h = some q) : t.handleOf? q = some h :=
  (paired q h).mp (owns_iff.mpr ⟨q, hq, BEq.rfl⟩)

theorem Paired.handleOf?_ne_of_owns (paired : t.Paired) {p : Path} {h : Handle}
    (howns : t.owns p h = false) : t.handleOf? p ≠ some h := by
  intro hhandle
  rw [(paired p h).mpr hhandle] at howns
  cases howns

/-- Where a handle resolves, the entries with that handle are those under its path. -/
theorem Paired.handle_eq_iff (paired : t.Paired) {h : Handle} {q : Path}
    (hq : t.resolve? h = some q) {e : Path × Watch} (he : e ∈ t.byPath.entries) :
    e.2.handle = h ↔ (e.1 == q) = true := by
  have hentry : t.entry? e.1 = some e.2 := Dict.find?_of_mem he
  constructor
  · intro hh
    obtain ⟨q', hq', hkey⟩ := owns_iff.mp
      ((paired e.1 h).mpr (handleOf?_eq_some_iff.mpr ⟨e.2, hentry, hh⟩))
    rw [hq, Option.some.injEq] at hq'
    exact BEq.symm (hq' ▸ hkey)
  · intro hkey
    have hhandle := paired.handleOf?_of_resolve? hq
    rw [← handleOf?_congr hkey] at hhandle
    obtain ⟨w, hw, rfl⟩ := handleOf?_eq_some_iff.mp hhandle
    rw [hentry, Option.some.injEq] at hw
    rw [hw]

theorem Paired.handle_ne_of_resolve?_none (paired : t.Paired) {h : Handle}
    (hnone : t.resolve? h = none) {e : Path × Watch} (he : e ∈ t.byPath.entries) :
    e.2.handle ≠ h := by
  intro hh
  have howns := (paired e.1 h).mpr (handleOf?_eq_some_iff.mpr ⟨e.2, Dict.find?_of_mem he, hh⟩)
  obtain ⟨q, hq, -⟩ := owns_iff.mp howns
  rw [hnone] at hq
  cases hq

/-- No two paths have one handle. -/
theorem Paired.beq_of_handle_eq (paired : t.Paired) {p q : Path} {v w : Watch}
    (hp : t.entry? p = some v) (hq : t.entry? q = some w) (h : v.handle = w.handle) :
    (p == q) = true := by
  obtain ⟨x, hx, hxp⟩ := (paired.resolve?_iff p v.handle).mpr ⟨v, hp, rfl⟩
  obtain ⟨y, hy, hyq⟩ := (paired.resolve?_iff q v.handle).mpr ⟨w, hq, h.symm⟩
  rw [hx, Option.some.injEq] at hy
  exact BEq.trans (BEq.symm hxp) (hy ▸ hyq)

/-- Both maps have one entry for each pair: the handles in the one are the keys of the other, and
neither list repeats. -/
theorem Paired.size_eq (paired : t.Paired) : t.byPath.size = t.byHandle.size := by
  have hleft : (t.byPath.entries.map (·.2.handle)).Nodup := by
    rw [List.nodup_iff_pairwise_ne, List.pairwise_map]
    refine t.byPath.distinct.imp_of_mem fun {a b} ha hb hab heq => ?_
    have := paired.beq_of_handle_eq (Dict.find?_of_mem ha) (Dict.find?_of_mem hb) heq
    rw [hab] at this
    exact Bool.false_ne_true this
  have hright : (t.byHandle.entries.map (·.1)).Nodup := by
    rw [List.nodup_iff_pairwise_ne, List.pairwise_map]
    exact t.byHandle.distinct.imp fun {a b} hab heq => by simp [heq] at hab
  have hperm : (t.byPath.entries.map (·.2.handle)).Perm (t.byHandle.entries.map (·.1)) := by
    refine (List.perm_ext_iff_of_nodup hleft hright).mpr fun h => ?_
    constructor
    · intro hmem
      obtain ⟨e, he, rfl⟩ := List.mem_map.mp hmem
      obtain ⟨q, hq, -⟩ := (paired.resolve?_iff e.1 _).mpr ⟨e.2, Dict.find?_of_mem he, rfl⟩
      obtain ⟨k, hk, hkey⟩ := Dict.find?_eq_some_iff.mp hq
      exact List.mem_map.mpr ⟨(k, q), hk, eq_of_beq hkey⟩
    · intro hmem
      obtain ⟨e, he, rfl⟩ := List.mem_map.mp hmem
      obtain ⟨w, hw, hh⟩ := handleOf?_eq_some_iff.mp
        (paired.handleOf?_of_resolve? (Dict.find?_of_mem he))
      obtain ⟨k, hk, -⟩ := Dict.find?_eq_some_iff.mp hw
      exact List.mem_map.mpr ⟨(k, w), hk, hh⟩
  simpa [Dict.size] using hperm.length_eq

end Consequences

/-! ## Putting a watch on a path -/

section Insert

variable (t : WatchTable) (p : Path) (w : Watch)

theorem resolve?_insert (h : Handle) :
    (t.insert p w).resolve? h =
      if w.handle = h then some p
      else if t.handleOf? p = some h then none
      else t.resolve? h := by
  unfold resolve? insert
  simp only
  rw [Dict.find?_insert]
  simp only [beq_iff_eq]
  split
  · rfl
  · rename_i hne
    unfold handleOf? entry?
    cases t.byPath.find? p with
    | none => simp
    | some old =>
      simp only [Option.map_some, Option.some.injEq]
      by_cases hold : old.handle = w.handle
      · rw [if_pos hold, if_neg (by rw [hold]; exact hne)]
      · rw [if_neg hold, Dict.find?_erase]
        simp only [beq_iff_eq]

/-- What the second map answers when `insert` looks for the path to throw out: erasing the old
handle of the path first makes no difference, for it is erased only if it is another one. -/
theorem insert_eq (t : WatchTable) (p : Path) (w : Watch) :
    ∃ byHandle : Dict Handle Path, byHandle.find? w.handle = t.resolve? w.handle ∧
      t.insert p w =
        ⟨(match byHandle.find? w.handle with
          | some other => if other == p then t.byPath else t.byPath.erase other
          | none => t.byPath).insert p w, byHandle.insert w.handle p⟩ := by
  refine ⟨_, ?_, rfl⟩
  cases t.byPath.find? p with
  | none => rfl
  | some old =>
    by_cases hold : old.handle = w.handle
    · simp only [if_pos hold]
      rfl
    · simp only [if_neg hold]
      rw [Dict.find?_erase, if_neg (by simpa using hold)]
      rfl

/-- What `insert` throws out of the first map: the other path with the handle, if there is one. -/
theorem Paired.byPath_insert {t : WatchTable} (paired : t.Paired) :
    (t.insert p w).byPath =
      (t.byPath.filter fun q v => q == p || decide (v.handle ≠ w.handle)).insert p w := by
  obtain ⟨byHandle, hfind, hinsert⟩ := t.insert_eq p w
  rw [hinsert, hfind]
  simp only
  congr 1
  apply Dict.ext_entries
  cases hres : t.resolve? w.handle with
  | none =>
    refine (List.filter_eq_self.mpr fun e he => ?_).symm
    simp [paired.handle_ne_of_resolve?_none hres he]
  | some other =>
    have hkeep := fun {e} he => paired.handle_eq_iff hres (e := e) he
    by_cases hother : (other == p) = true
    · simp only [if_pos hother]
      refine (List.filter_eq_self.mpr fun e he => ?_).symm
      by_cases heq : (e.1 == other) = true
      · simp [BEq.trans heq hother]
      · simp [mt (hkeep he).mp heq]
    · simp only [if_neg hother]
      refine List.filter_congr fun e he => ?_
      by_cases heq : (e.1 == other) = true
      · have hne : (e.1 == p) = false := by
          rw [Bool.eq_false_iff]
          exact fun h => hother (BEq.trans (BEq.symm heq) h)
        simp [heq, hne, (hkeep he).mpr heq]
      · simp [heq, mt (hkeep he).mp heq]

theorem Paired.entry?_insert {t : WatchTable} (paired : t.Paired) (q : Path) :
    entry? (t.insert p w) q =
      if p == q then some w else ( t.entry? q).filter fun v => decide (v.handle ≠ w.handle) := by
  unfold entry?
  rw [paired.byPath_insert]
  exact t.byPath.find?_insert_filter (fun v => decide (v.handle ≠ w.handle)) p q w

theorem Paired.handleOf?_insert {t : WatchTable} (paired : t.Paired) (q : Path) :
    (t.insert p w).handleOf? q =
      if p == q then some w.handle
      else (t.handleOf? q).filter fun h => decide (h ≠ w.handle) := by
  unfold handleOf?
  rw [paired.entry?_insert]
  split
  · rfl
  · rw [Option.filter_map]
    rfl

/-- **Every coincidence of handles is mended.**  The path may change its handle, the handle may
change its path, and both may happen in one call. -/
theorem Paired.insert {t : WatchTable} (paired : t.Paired) : (t.insert p w).Paired := by
  intro q h
  rw [owns_iff, resolve?_insert, paired.handleOf?_insert]
  by_cases hw : w.handle = h
  · subst hw
    by_cases hpq : (p == q) = true
    · simp [hpq]
    · simp [hpq]
  · rw [if_neg hw]
    by_cases hpq : (p == q) = true
    · -- The path has the new handle, so no other handle may stand for it.
      rw [if_pos hpq]
      simp only [Option.some.injEq, hw, iff_false]
      rintro ⟨x, hx, hxq⟩
      by_cases hp : t.handleOf? p = some h
      · rw [if_pos hp] at hx
        cases hx
      · rw [if_neg hp] at hx
        exact hp ((paired p h).mp (owns_iff.mpr ⟨x, hx, BEq.trans hxq (BEq.symm hpq)⟩))
    · rw [if_neg hpq]
      have hfilter : (t.handleOf? q).filter (fun k => decide (k ≠ w.handle)) = some h
          ↔ t.handleOf? q = some h := by
        simp only [Option.filter_eq_some_iff, decide_eq_true_eq]
        exact ⟨fun hh => hh.1, fun hh => ⟨hh, fun heq => hw heq.symm⟩⟩
      rw [hfilter, ← paired q h, owns_iff]
      by_cases hp : t.handleOf? p = some h
      · -- The old handle of the path: it stood for this path and for no other.
        rw [if_pos hp]
        obtain ⟨x, hx, hxp⟩ := owns_iff.mp ((paired p h).mpr hp)
        simp only [reduceCtorEq, false_and, exists_false, false_iff, not_exists, not_and]
        intro y hy hyq
        rw [hx, Option.some.injEq] at hy
        exact hpq (BEq.trans (BEq.symm hxp) (hy ▸ hyq))
      · rw [if_neg hp]

end Insert

/-! ## What a registration displaces -/

section Displaces

variable {t : WatchTable} {p q : Path} {g h : Handle}

/-- A registration under a handle ends a pair: it gives the path another handle, or the handle another
path. -/
def Displaces (p : Path) (h : Handle) (q : Path) (g : Handle) : Prop :=
  ((p == q) = true ∧ h ≠ g) ∨ ((p == q) = false ∧ h = g)

/-- A registration ends the pairs that it displaces, and no others. -/
theorem Paired.ended_iff_displaces (paired : t.Paired) (w : Watch) (howns : t.owns q g = true) :
    (t.insert p w).owns q g = false ↔ Displaces p w.handle q g := by
  rw [Bool.eq_false_iff, ne_eq, (paired.insert p w) q g, paired.handleOf?_insert,
    (paired q g).mp howns, Displaces]
  by_cases hkey : (p == q) = true
  · simp [hkey]
  · have hkeep : (some g).filter (fun h => decide (h ≠ w.handle)) = some g ↔ g ≠ w.handle := by simp
    rw [if_neg hkey, hkeep]
    simp [hkey, eq_comm]

end Displaces

/-! ## Throwing out handles -/

section Without

variable (t : WatchTable)

theorem entry?_without (gone : List Handle) (p : Path) :
    entry? (t.without gone) p = ( t.entry? p).filter fun w => decide (w.handle ∉ gone) :=
  Dict.find?_filter_values _ (fun w : Watch => decide (w.handle ∉ gone)) p

theorem handleOf?_without (gone : List Handle) (p : Path) :
    (t.without gone).handleOf? p = (t.handleOf? p).filter fun h => decide (h ∉ gone) := by
  unfold handleOf?
  rw [entry?_without, Option.filter_map]
  rfl

theorem handleOf?_without_ne {p : Path} {h : Handle} : (t.without [h]).handleOf? p ≠ some h := by
  intro hhandle
  rw [handleOf?_without, Option.filter_eq_some_iff] at hhandle
  simp at hhandle

theorem resolve?_without (gone : List Handle) (h : Handle) :
    (t.without gone).resolve? h = if h ∈ gone then none else t.resolve? h := by
  unfold resolve? without
  rw [Dict.find?_filter]
  split
  · rename_i hmem
    cases t.byHandle.find? h <;> simp [Option.filter_some, hmem]
  · rename_i hmem
    cases t.byHandle.find? h <;> simp [Option.filter_some, hmem]

theorem Paired.without {t : WatchTable} (paired : t.Paired) (gone : List Handle) :
    (t.without gone).Paired := by
  intro p h
  rw [owns_iff, resolve?_without, handleOf?_without, Option.filter_eq_some_iff, ← paired p h,
    owns_iff]
  by_cases hmem : h ∈ gone <;> simp [hmem]

@[simp] theorem without_nil : t.without [] = t := by
  have hall : ∀ {κ α : Type} [BEq κ] (d : Dict κ α), d.filter (fun _ _ => true) = d :=
    fun d => Dict.ext_entries (by simp [Dict.filter])
  simp [WatchTable.without, hall]

theorem without_without (gone more : List Handle) :
    (t.without gone).without more = t.without (gone ++ more) := by
  unfold WatchTable.without
  simp only [mk.injEq]
  constructor
  · apply Dict.ext_entries
    simp only [Dict.filter, List.filter_filter, List.mem_append, not_or, Bool.decide_and,
      Bool.and_comm]
  · apply Dict.ext_entries
    simp only [Dict.filter, List.filter_filter, List.mem_append, not_or, Bool.decide_and,
      Bool.and_comm]

theorem without_comm (gone more : List Handle) :
    (t.without gone).without more = (t.without more).without gone := by
  rw [without_without, without_without]
  unfold WatchTable.without
  simp only [List.mem_append, or_comm]

/-- **To purge a handle is to leave it out of both maps**, whether it was known or not. -/
theorem Paired.removeHandle_eq {t : WatchTable} (paired : t.Paired) (h : Handle) :
    t.removeHandle h = (t.resolve? h, t.without [h]) := by
  have hfold : t.byHandle.find? h = t.resolve? h := rfl
  unfold removeHandle
  rw [hfold]
  cases hres : t.resolve? h with
  | none =>
    simp only [Prod.mk.injEq, true_and]
    have hpath : t.byPath.filter (fun _ w => decide (w.handle ∉ [h])) = t.byPath :=
      Dict.ext_entries (List.filter_eq_self.mpr fun e he => by
        simp [paired.handle_ne_of_resolve?_none hres he])
    have hhandle : t.byHandle.filter (fun k _ => decide (k ∉ [h])) = t.byHandle :=
      Dict.ext_entries (List.filter_eq_self.mpr fun e he => by
        have hne : e.1 ≠ h := by
          rintro rfl
          have hfind := Dict.find?_of_mem he
          rw [hfold, hres] at hfind
          cases hfind
        simp [hne])
    rw [WatchTable.without, hpath, hhandle]
  | some q =>
    simp only [paired.handleOf?_of_resolve? hres, if_true, Prod.mk.injEq, true_and]
    unfold WatchTable.without
    simp only [mk.injEq]
    constructor
    · refine Dict.ext_entries (List.filter_congr fun e he => ?_)
      by_cases heq : (e.1 == q) = true
      · simp [heq, (paired.handle_eq_iff hres he).mpr heq]
      · simp [heq, mt (paired.handle_eq_iff hres he).mp heq]
    · refine Dict.ext_entries (List.filter_congr fun e _ => ?_)
      by_cases heq : e.1 = h <;> simp [heq]

/-- To leave out a handle that stands for nothing changes nothing. -/
theorem Paired.without_of_unresolved {t : WatchTable} (paired : t.Paired) {h : Handle}
    (hnone : t.resolve? h = none) : t.without [h] = t := by
  have hremove := congrArg Prod.snd (paired.removeHandle_eq h)
  unfold removeHandle at hremove
  rw [show t.byHandle.find? h = none from hnone] at hremove
  exact hremove.symm

theorem Paired.removeHandle {t : WatchTable} (paired : t.Paired) (h : Handle) :
    (t.removeHandle h).2.Paired := by
  rw [paired.removeHandle_eq]
  exact paired.without [h]

theorem Paired.resolve?_removeHandle {t : WatchTable} (paired : t.Paired) {g h : Handle}
    (hne : g ≠ h) : (t.removeHandle g).2.resolve? h = t.resolve? h := by
  rw [paired.removeHandle_eq, resolve?_without, if_neg]
  simpa using hne.symm

end Without

end WatchTable

end FileWatch
