import FileWatch.Debounce.Pending
import FileWatch.Proofs.Dict

/-!
# Pending completions, one path at a time

The deadlines of a worker are one map, and three of its operations speak of many paths at once.
What they do to a single path is simple, and it is the same whatever else is pending: the path is in
the answer at most once, and the answer shows it as it was first spelled.

So the answers are looked at through `(· == p)`, which leaves of them what names `p`.  The order in
which paths come due is invisible from there.
-/

namespace FileWatch

namespace Pending

/-- Sorting moves a path, and neither loses nor repeats it. -/
theorem filter_inOrder {es : List (Path × Instant)}
    (distinct : es.Pairwise fun a b => (a.1 == b.1) = false) (p : Path) :
    (inOrder es).filter (· == p) = ((es.find? fun e => e.1 == p).map (·.1)).toList := by
  have hperm : ((es.mergeSort le).filter fun e => e.1 == p).Perm
      (es.find? fun e => e.1 == p).toList := by
    rw [← Dict.filter_key_eq_find? distinct]
    exact (List.mergeSort_perm es le).filter _
  have hsorted : ((es.mergeSort le).filter fun e => e.1 == p)
      = (es.find? fun e => e.1 == p).toList := by
    cases h : es.find? fun e => e.1 == p with
    | none =>
      rw [h] at hperm
      exact List.perm_nil.mp hperm
    | some e =>
      rw [h] at hperm
      exact List.perm_singleton.mp hperm
  unfold inOrder
  rw [List.filter_map, show ((· == p) ∘ fun e : Path × Instant => e.1) = fun e => e.1 == p from rfl,
    hsorted]
  cases es.find? fun e => e.1 == p <;> rfl

variable (d : Pending) (p : Path)

theorem filter_takeExpired (now : Instant) :
    (d.takeExpired now).1.filter (· == p)
      = (((d.stored? p).filter fun e => e.2 ≤ now).map (·.1)).toList := by
  have hdistinct := (d.filter fun _ deadline => deadline ≤ now).distinct
  rw [← Dict.stored?_filter d (fun _ deadline => deadline ≤ now)]
  exact filter_inOrder hdistinct p

theorem stored?_takeExpired (now : Instant) :
    (d.takeExpired now).2.stored? p = (d.stored? p).filter fun e => !(e.2 ≤ now) :=
  Dict.stored?_filter d (fun _ deadline => !(deadline ≤ now)) p

theorem filter_drain : d.drain.1.filter (· == p) = ((d.stored? p).map (·.1)).toList :=
  filter_inOrder d.distinct p

theorem stored?_drain : d.drain.2.stored? p = none := Dict.stored?_empty p

theorem cancel_fst_eq (q : Path) : (d.cancel q).1 = (d.stored? q).isSome := by
  unfold cancel
  rw [Dict.contains_eq_isSome, Dict.find?_eq_map_stored?, Option.isSome_map]

theorem stored?_cancel (q : Path) :
    (d.cancel q).2.stored? p = if q == p then none else d.stored? p :=
  Dict.stored?_erase d q p

theorem stored?_arm (q : Path) (deadline : Instant) :
    (d.arm q deadline).stored? p =
      if q == p then some (((d.stored? q).map (·.1)).getD q, deadline) else d.stored? p :=
  Dict.stored?_insert d q p deadline

end Pending

end FileWatch
