import FileWatch.Proofs.WatchTable.Pairing

/-!
# A table of watches is one finite map

A table keeps two maps so that it can be asked both ways.  What it *means* is one map, from names to
watches, in which no two names share a handle; that is a `Registry`.  A name is the list of parts of
a path, so two spellings of one path are one name.

`Request` lists what a table can be asked to do, in the form in which nothing comes between.
`WatchTable.serve` answers with the operations of the table, `Registry.serve` with those of the
one map, and `serveAll_eq_registry` says that no sequence of requests tells the two apart: not by
an answer, not by what the tables hold afterwards.

The simulation relation `Represents` asks for equal lists of entries and not just for equal lookups.
The entries come in one order in both, because the table orders its watches by its first map alone;
and with the order, the list of all paths needs no argument of its own.
-/

namespace FileWatch

/-- One finite map from names to watches in which every handle has at most one name. -/
structure Registry where
  watches : Dict (List Part) Watch
  injective : ∀ {m n v w}, watches.find? m = some v → watches.find? n = some w →
    v.handle = w.handle → m = n

namespace Registry

/-- The map without watches. -/
def empty : Registry := ⟨∅, fun h => by simp [EmptyCollection.emptyCollection] at h⟩

/-- The watch under a name. -/
def watch? (r : Registry) (n : List Part) : Option Watch := r.watches.find? n

/-- The name that holds a handle. -/
def holder? (r : Registry) (h : Handle) : Option (List Part) :=
  (r.watches.entries.find? fun e => e.2.handle = h).map (·.1)

def names (r : Registry) : List (List Part) :=
  r.watches.keys.mergeSort fun m n =>
    precedes (m.flatMap Part.sortKey) (n.flatMap Part.sortKey)

theorem find?_assign (d : Dict (List Part) Watch) (n m : List Part) (w : Watch) :
    ((d.filter fun k v => k == n || decide (v.handle ≠ w.handle)).insert n w).find? m =
      if n = m then some w else (d.find? m).filter fun v => decide (v.handle ≠ w.handle) := by
  rw [d.find?_insert_filter (fun v => decide (v.handle ≠ w.handle))]
  simp only [beq_iff_eq]

/-- Set the watch under a name, after dropping every other name that holds its handle. -/
def assign (r : Registry) (n : List Part) (w : Watch) : Registry where
  watches := (r.watches.filter fun m v => m == n || decide (v.handle ≠ w.handle)).insert n w
  injective := by
    intro k l u v hk hl huv
    rw [find?_assign] at hk hl
    by_cases hnk : n = k
    · by_cases hnl : n = l
      · rw [← hnk, ← hnl]
      · rw [if_pos hnk, Option.some.injEq] at hk
        rw [if_neg hnl, Option.filter_eq_some_iff, decide_eq_true_eq] at hl
        exact absurd (by rw [hk, huv]) hl.2
    · rw [if_neg hnk, Option.filter_eq_some_iff, decide_eq_true_eq] at hk
      by_cases hnl : n = l
      · rw [if_pos hnl, Option.some.injEq] at hl
        exact absurd (by rw [hl, huv]) hk.2
      · rw [if_neg hnl, Option.filter_eq_some_iff] at hl
        exact r.injective hk.1 hl.1 huv

/-- Drop the name that holds a handle. -/
def release (r : Registry) (h : Handle) : Registry where
  watches := r.watches.filter fun _ w => decide (w.handle ≠ h)
  injective := by
    intro m n v w hm hn hvw
    rw [Dict.find?_filter_values _ fun w : Watch => decide (w.handle ≠ h),
      Option.filter_eq_some_iff] at hm hn
    exact r.injective hm.1 hn.1 hvw

theorem watch?_assign (r : Registry) (n m : List Part) (w : Watch) :
    (r.assign n w).watch? m =
      if n = m then some w else (r.watch? m).filter fun v => decide (v.handle ≠ w.handle) :=
  find?_assign r.watches n m w

theorem watch?_release (r : Registry) (h : Handle) (n : List Part) :
    (r.release h).watch? n = (r.watch? n).filter fun w => decide (w.handle ≠ h) :=
  Dict.find?_filter_values _ (fun w : Watch => decide (w.handle ≠ h)) n

theorem holder?_eq_some_iff (r : Registry) (h : Handle) (n : List Part) :
    r.holder? h = some n ↔ ∃ w, r.watch? n = some w ∧ w.handle = h := by
  unfold holder?
  rw [Option.map_eq_some_iff]
  constructor
  · rintro ⟨e, he, rfl⟩
    exact ⟨e.2, Dict.find?_of_mem (List.mem_of_find?_eq_some he),
      by simpa using List.find?_some he⟩
  · rintro ⟨w, hw, rfl⟩
    obtain ⟨k, hk, hkey⟩ := Dict.find?_eq_some_iff.mp hw
    cases hf : r.watches.entries.find? fun e => decide (e.2.handle = w.handle) with
    | none => exact absurd (decide_eq_true rfl) (List.find?_eq_none.mp hf (k, w) hk)
    | some e =>
      have he : e.2.handle = w.handle := by simpa using List.find?_some hf
      exact ⟨e, rfl, r.injective (Dict.find?_of_mem (List.mem_of_find?_eq_some hf)) hw he⟩

/-! ## Requests -/

/-- What a table can be asked to do.  The waiter of `expire` has run out of time. -/
inductive Request where
  | register (path : Path) (flags : Mask) (arm : Mask → Bool → Except Failure Handle)
  | purge (handle : Handle)
  | expire (path : Path) (handle : Handle)
  | clear
  | entry (path : Path)
  | handleOf (path : Path)
  | resolve (handle : Handle)
  | size
  | paths

/-- What it answers; paths are of a type that is left open. -/
inductive Answer (π : Type) where
  | registered (result : Except Failure Watch)
  | purged (path : Option π)
  | waited (confirmed : Bool)
  | cleared
  | entry (watch : Option Watch)
  | handle (handle : Option Handle)
  | resolved (path : Option π)
  | size (count : Nat)
  | paths (all : List π)

/-- The same answer about other names for the paths. -/
def Answer.map {π ρ : Type} (f : π → ρ) : Answer π → Answer ρ
  | registered result => registered result
  | purged path => purged (path.map f)
  | waited confirmed => waited confirmed
  | cleared => cleared
  | entry watch => entry watch
  | handle h => handle h
  | resolved path => resolved (path.map f)
  | size count => size count
  | paths all => paths (all.map f)

end Registry

/-- A table does what it is asked to. -/
def WatchTable.serve (t : WatchTable) : Registry.Request → Registry.Answer Path × WatchTable
  | .register p flags arm =>
    let (result, t) := t.register p flags arm
    (.registered result, t)
  | .purge h =>
    let (path, t) := t.purge h
    (.purged path, t)
  | .expire p h =>
    match t.wait p h true with
    | .forced t => (.waited false, t)
    | _ => (.waited true, t)
  | .clear => (.cleared, t.clear)
  | .entry p => (.entry ( t.entry? p), t)
  | .handleOf p => (.handle (t.handleOf? p), t)
  | .resolve h => (.resolved (t.resolve? h), t)
  | .size => (.size t.size, t)
  | .paths => (.paths t.paths, t)

/-- One finite map does the same. -/
def Registry.serve (r : Registry) : Request → Answer (List Part) × Registry
  | .register p flags arm =>
    let old := r.watch? p.parts
    let wanted := match old with
      | some w => w.flags ||| flags
      | none => flags
    match arm wanted old.isSome with
    | .error e => (.registered (.error e), r)
    | .ok h => (.registered (.ok ⟨h, wanted⟩), r.assign p.parts ⟨h, wanted⟩)
  | .purge h => (.purged (r.holder? h), r.release h)
  | .expire p h =>
    if r.holder? h = some p.parts then (.waited false, r.release h) else (.waited true, r)
  | .clear => (.cleared, .empty)
  | .entry p => (.entry (r.watch? p.parts), r)
  | .handleOf p => (.handle ((r.watch? p.parts).map (·.handle)), r)
  | .resolve h => (.resolved (r.holder? h), r)
  | .size => (.size r.watches.size, r)
  | .paths => (.paths r.names, r)

/-- The answers of a table to one request after the other, and the table it is then. -/
def WatchTable.serveAll :
    WatchTable → List Registry.Request → List (Registry.Answer Path) × WatchTable
  | t, [] => ([], t)
  | t, q :: rest => ((t.serve q).1 :: ((t.serve q).2.serveAll rest).1,
      ((t.serve q).2.serveAll rest).2)

/-- The answers of one finite map to the same. -/
def Registry.serveAll : Registry → List Request → List (Answer (List Part)) × Registry
  | r, [] => ([], r)
  | r, q :: rest => ((r.serve q).1 :: ((r.serve q).2.serveAll rest).1,
      ((r.serve q).2.serveAll rest).2)

/-! ## The simulation -/

/-- A table stands for one map: its first map is that map, under the spellings of the paths, and its
two maps are inverse. -/
structure Represents (t : WatchTable) (r : Registry) : Prop where
  renamed : Dict.Renamed Path.parts t.byPath r.watches
  paired : t.Paired

theorem parts_beq (p q : Path) : (p.parts == q.parts) = (p == q) := by
  rw [Bool.eq_iff_iff, beq_iff_eq, Path.beq_iff]

namespace Represents

variable {t : WatchTable} {r : Registry}

theorem empty : Represents .empty .empty := ⟨rfl, WatchTable.paired_empty⟩

theorem watch?_eq (rep : Represents t r) (p : Path) : r.watch? p.parts = t.entry? p :=
  rep.renamed.find?_eq parts_beq p

theorem holder?_eq (rep : Represents t r) (h : Handle) :
    r.holder? h = (t.resolve? h).map Path.parts := by
  cases hres : t.resolve? h with
  | none =>
    rw [Option.map_none, Option.eq_none_iff_forall_ne_some]
    intro n hn
    obtain ⟨w, hw, hh⟩ := (r.holder?_eq_some_iff h n).mp hn
    obtain ⟨k, hk, -⟩ := Dict.find?_eq_some_iff.mp hw
    rw [show r.watches.entries = _ from rep.renamed] at hk
    obtain ⟨e, he, hek⟩ := List.mem_map.mp hk
    simp only [Prod.mk.injEq] at hek
    exact rep.paired.handle_ne_of_resolve?_none hres he (by rw [hek.2, hh])
  | some q =>
    rw [Option.map_some, r.holder?_eq_some_iff, rep.watch?_eq]
    exact (rep.paired.resolve?_iff q h).mp ⟨q, hres, BEq.rfl⟩

theorem holder?_eq_some_iff_owns (rep : Represents t r) (p : Path) (h : Handle) :
    r.holder? h = some p.parts ↔ t.owns p h = true := by
  rw [rep.holder?_eq, Option.map_eq_some_iff, WatchTable.owns_iff]
  simp only [Path.beq_iff]

theorem names_eq (rep : Represents t r) : r.names = t.paths.map Path.parts := by
  have hsort : t.paths.map Path.parts = (t.byPath.keys.map Path.parts).mergeSort
      fun m n => precedes (m.flatMap Part.sortKey) (n.flatMap Part.sortKey) :=
    List.map_mergeSort fun _ _ _ _ => rfl
  rw [hsort]
  unfold Registry.names Dict.keys
  rw [show r.watches.entries = _ from rep.renamed]
  simp only [List.map_map, Function.comp_def]

theorem size_eq (rep : Represents t r) : r.watches.size = t.size := by
  unfold WatchTable.size Dict.size
  rw [show r.watches.entries = _ from rep.renamed, List.length_map]

theorem assign (rep : Represents t r) (p : Path) (w : Watch) :
    Represents (t.insert p w) (r.assign p.parts w) where
  paired := rep.paired.insert p w
  renamed := by
    rw [rep.paired.byPath_insert]
    exact (rep.renamed.filter fun q v => by rw [parts_beq]).insert parts_beq p w

theorem release (rep : Represents t r) (h : Handle) :
    Represents (t.removeHandle h).2 (r.release h) where
  paired := rep.paired.removeHandle h
  renamed := by
    rw [rep.paired.removeHandle_eq]
    exact rep.renamed.filter fun _ w => by simp

/-- One request: the answers are the same, and the two still stand for each other. -/
theorem serve (rep : Represents t r) (q : Registry.Request) :
    (t.serve q).1.map Path.parts = (r.serve q).1 ∧ Represents (t.serve q).2 (r.serve q).2 := by
  cases q with
  | register p flags arm =>
    -- Both sides demand the same of the kernel, so it answers both the same.
    simp only [WatchTable.serve, WatchTable.register, WatchTable.demand, Registry.serve,
      rep.watch?_eq p]
    cases t.entry? p with
    | none =>
      simp only [Option.isSome_none]
      cases arm flags false with
      | error e => exact ⟨rfl, rep⟩
      | ok h => exact ⟨rfl, rep.assign p _⟩
    | some w =>
      simp only [Option.isSome_some]
      cases arm (w.flags ||| flags) true with
      | error e => exact ⟨rfl, rep⟩
      | ok h => exact ⟨rfl, rep.assign p _⟩
  | purge h =>
    refine ⟨?_, rep.release h⟩
    simp only [WatchTable.serve, WatchTable.purge, rep.paired.removeHandle_eq,
      Registry.Answer.map, Registry.serve, rep.holder?_eq]
  | expire p h =>
    simp only [WatchTable.serve, WatchTable.wait, Registry.serve, rep.holder?_eq_some_iff_owns]
    by_cases howns : t.owns p h = true
    · simp only [howns, Bool.not_true, Bool.false_eq_true, if_false, if_true]
      exact ⟨rfl, rep.release h⟩
    · simp only [howns, Bool.not_false, Bool.false_eq_true, if_false, if_true]
      exact ⟨rfl, rep⟩
  | clear => exact ⟨rfl, empty⟩
  | entry p => exact ⟨congrArg _ (rep.watch?_eq p).symm, rep⟩
  | handleOf p =>
    refine ⟨?_, rep⟩
    simp only [WatchTable.serve, Registry.Answer.map, Registry.serve, rep.watch?_eq]
    rfl
  | resolve h => exact ⟨congrArg _ (rep.holder?_eq h).symm, rep⟩
  | size => exact ⟨congrArg _ rep.size_eq.symm, rep⟩
  | paths => exact ⟨congrArg _ rep.names_eq.symm, rep⟩

theorem serveAll (rep : Represents t r) (qs : List Registry.Request) :
    (t.serveAll qs).1.map (Registry.Answer.map Path.parts) = (r.serveAll qs).1 ∧
      Represents (t.serveAll qs).2 (r.serveAll qs).2 := by
  induction qs generalizing t r with
  | nil => exact ⟨rfl, rep⟩
  | cons q rest ih =>
    obtain ⟨hanswer, hnext⟩ := rep.serve q
    obtain ⟨hanswers, hlast⟩ := ih hnext
    refine ⟨?_, hlast⟩
    simp only [WatchTable.serveAll, Registry.serveAll, List.map_cons, hanswer, hanswers]

end Represents

/-- **A table of two maps is one finite map.**  Whatever is asked of an empty table, in whatever
order, with whatever answers of the kernel, it answers as the one map does.  In the state it is in
then, its two maps are inverse, of one size, and hold what the one map holds. -/
theorem serveAll_eq_registry (qs : List Registry.Request) :
    let t := (WatchTable.empty.serveAll qs).2
    let r := (Registry.empty.serveAll qs).2
    (WatchTable.empty.serveAll qs).1.map (Registry.Answer.map Path.parts)
        = (Registry.empty.serveAll qs).1 ∧
      (∀ p h, (∃ q, t.resolve? h = some q ∧ (q == p) = true) ↔
        ∃ w, t.entry? p = some w ∧ w.handle = h) ∧
      t.byPath.size = t.byHandle.size ∧
      (∀ p, t.entry? p = r.watch? p.parts) ∧
      (∀ h, (t.resolve? h).map Path.parts = r.holder? h) := by
  intro t r
  obtain ⟨hanswers, rep⟩ : _ ∧ Represents t r := Represents.empty.serveAll qs
  exact ⟨hanswers, rep.paired.resolve?_iff, rep.paired.size_eq,
    fun p => (rep.watch?_eq p).symm, fun h => (rep.holder?_eq h).symm⟩

end FileWatch
