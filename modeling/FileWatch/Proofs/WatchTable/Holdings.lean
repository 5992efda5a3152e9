import FileWatch.Kernel
import FileWatch.Proofs.Kernel.Notifier
import FileWatch.Proofs.Mask
import FileWatch.Proofs.WatchTable.Pairing
import FileWatch.WatchOptions

/-!
# What a caller holds

To a caller who is the only one, and while no name on disk changes, a watcher looks simple.  Some paths
hold things: under each path there is the thing it led to when it was registered, and what is to be
told about it.  No two paths hold one thing.  There are no handles, no records, and nobody to wait for.
These are `Holdings`; what a caller can ask of them is an `Errand`.

Three rules are easily missed.  To register a path again only adds to what it is registered for.  That
goes for the wish not to follow links too: once it was uttered it holds until the path is removed, and
it decides which thing the path leads to.  And a path loses its thing to the next path that is
registered for it.

A table `Stands` for holdings if it has their paths, in the order and the spelling in which they came,
and if the handle under a path is that of a live watch on the thing.  What a registration and a removal
do to a table, the holdings do in one step (`Stands.insert`, `Stands.without_handle`); a handle that is
not live is in no such table (`Stands.without_dead`).
-/

namespace FileWatch

/-- A thing on disk, and what is to be told about it. -/
structure Holding where
  inode : Inode
  flags : Mask
deriving DecidableEq, Repr

/-- What the paths hold, one thing each and each thing once. -/
structure Holdings where
  held : Dict Path Holding
  injective : ∀ {p q v w}, held.find? p = some v → held.find? q = some w →
    v.inode = w.inode → (p == q) = true

/-- What a caller asks for.  The kernel may have a reason of its own to refuse a registration. -/
inductive Errand where
  | add (path : Path) (options : WatchOptions) (refused : Option Errno)
  | remove (path : Path)
  | list
deriving DecidableEq, Repr

/-- What an errand gets. -/
inductive Errand.Outcome where
  | done (result : Except Failure Unit)
  | listed (paths : List Path)

namespace Holdings

def empty : Holdings := ⟨∅, fun h => by simp [EmptyCollection.emptyCollection] at h⟩

/-- What a path is to be registered for: what it was registered for so far, and more. -/
def wanted (h : Holdings) (p : Path) (flags : Mask) : Mask :=
  match h.held.find? p with
  | some v => v.flags ||| flags
  | none => flags

/-- Let a path hold a thing, and nobody else. -/
def assign (h : Holdings) (p : Path) (v : Holding) : Holdings where
  held := (h.held.filter fun q w => q == p || decide (w.inode ≠ v.inode)).insert p v
  injective := by
    intro q r w x hq hr hwx
    rw [Dict.find?_insert_filter _ (fun w : Holding => decide (w.inode ≠ v.inode))] at hq hr
    by_cases hpq : (p == q) = true
    · by_cases hpr : (p == r) = true
      · exact BEq.trans (BEq.symm hpq) hpr
      · rw [if_pos hpq, Option.some.injEq] at hq
        rw [if_neg hpr, Option.filter_eq_some_iff, decide_eq_true_eq] at hr
        exact absurd (by rw [hq, hwx]) hr.2
    · rw [if_neg hpq, Option.filter_eq_some_iff, decide_eq_true_eq] at hq
      by_cases hpr : (p == r) = true
      · rw [if_pos hpr, Option.some.injEq] at hr
        exact absurd (by rw [hr, hwx]) hq.2
      · rw [if_neg hpr, Option.filter_eq_some_iff] at hr
        exact h.injective hq.1 hr.1 hwx

/-- Let a path hold nothing. -/
def drop (h : Holdings) (p : Path) : Holdings where
  held := h.held.erase p
  injective := by
    intro q r v w hq hr hvw
    rw [Dict.find?_erase] at hq hr
    by_cases hpq : (p == q) = true
    · rw [if_pos hpq] at hq
      cases hq
    · by_cases hpr : (p == r) = true
      · rw [if_pos hpr] at hr
        cases hr
      · rw [if_neg hpq] at hq
        rw [if_neg hpr] at hr
        exact h.injective hq hr hvw

/-- The thing that a path leads to, if the kernel watches it.  It does not get a path with a zero byte
in it; and flags without a meaning it refuses before it looks where the path leads. -/
def verdict (find : Bool → Path → Except Errno Inode) (p : Path) (wanted : Mask)
    (refused : Option Errno) : Except Cause Inode :=
  match p.bytes.findIdx? (· == 0) with
  | some n => .error (.nulByte n)
  | none =>
    match refused with
    | some e => .error (.errno e)
    | none =>
      if wanted.has Mask.known then
        match find (!wanted.has Mask.dontFollow) p with
        | .error e => .error (.errno e)
        | .ok i => .ok i
      else .error (.errno .invalid)

theorem known_of_verdict {find : Bool → Path → Except Errno Inode} {p : Path} {wanted : Mask}
    {refused : Option Errno} {i : Inode} (h : verdict find p wanted refused = .ok i) :
    wanted.has Mask.known = true := by
  unfold verdict at h
  split at h
  · cases h
  · split at h
    · cases h
    · split at h
      · assumption
      · cases h

/-- A path leads to what is found under it. -/
theorem find_of_verdict {find : Bool → Path → Except Errno Inode} {p : Path} {wanted : Mask}
    {refused : Option Errno} {i : Inode} (h : verdict find p wanted refused = .ok i) :
    find (!wanted.has Mask.dontFollow) p = .ok i := by
  unfold verdict at h
  split at h
  · cases h
  · split at h
    · cases h
    · split at h
      · split at h
        · cases h
        · cases h
          assumption
      · cases h

/-- Of what is wanted, two things decide where a path leads. -/
theorem verdict_congr {find : Bool → Path → Except Errno Inode} {p : Path} {wanted wanted' : Mask}
    (known : wanted'.has Mask.known = wanted.has Mask.known)
    (leads : find (!wanted'.has Mask.dontFollow) p = find (!wanted.has Mask.dontFollow) p)
    (refused : Option Errno) :
    verdict find p wanted' refused = verdict find p wanted refused := by
  unfold verdict
  rw [known, leads]

/-- What an errand gets, and what is held after it. -/
def serve (find : Bool → Path → Except Errno Inode) (h : Holdings) : Errand → Errand.Outcome × Holdings
  | .add p o refused =>
    let wanted := h.wanted p.normalize o.flags
    match verdict find p.normalize wanted refused with
    | .error cause => (.done (.error (.registration p.normalize cause)), h)
    | .ok inode => (.done (.ok ()), h.assign p.normalize ⟨inode, wanted⟩)
  | .remove p =>
    if h.held.contains p.normalize then (.done (.ok ()), h.drop p.normalize)
    else (.done (.error (.notWatched p.normalize)), h)
  | .list => (.listed (Path.sorted h.held.keys), h)

/-- One errand after the other. -/
def serveAll (find : Bool → Path → Except Errno Inode) :
    Holdings → List Errand → List Errand.Outcome × Holdings
  | h, [] => ([], h)
  | h, q :: rest => ((h.serve find q).1 :: ((h.serve find q).2.serveAll find rest).1,
      ((h.serve find q).2.serveAll find rest).2)

section ServeAll

variable (find : Bool → Path → Except Errno Inode) {script : List Errand} {i : Nat} {q : Errand}

/-- What is held when so many errands of a script are done. -/
def after (script : List Errand) (i : Nat) : Holdings := (empty.serveAll find (script.take i)).2

theorem serveAll_take_succ {h : Holdings} (hq : script[i]? = some q) :
    (h.serveAll find (script.take (i + 1))).2
      = ((h.serveAll find (script.take i)).2.serve find q).2 := by
  induction script generalizing h i with
  | nil => cases hq
  | cons r rest ih =>
    cases i with
    | zero =>
      cases hq
      rfl
    | succ i => exact ih hq

theorem serveAll_getElem? {h : Holdings} (hq : script[i]? = some q) :
    (h.serveAll find script).1[i]?
      = some ((h.serveAll find (script.take i)).2.serve find q).1 := by
  induction script generalizing h i with
  | nil => cases hq
  | cons r rest ih =>
    cases i with
    | zero =>
      cases hq
      rfl
    | succ i => exact ih hq

theorem after_succ (hq : script[i]? = some q) :
    after find script (i + 1) = ((after find script i).serve find q).2 :=
  serveAll_take_succ find hq

end ServeAll

end Holdings

/-! ## Tables and holdings -/

/-- A handle and what is to be told stand for a holding. -/
structure Watch.Stands (n : Notifier) (w : Watch) (v : Holding) : Prop where
  flags : w.flags = v.flags
  known : v.flags.has Mask.known = true
  watches : n.Watches w.handle v.inode

namespace WatchTable

/-- The paths of a table hold what they should. -/
def Stands (t : WatchTable) (n : Notifier) (h : Holdings) : Prop :=
  Dict.Alike (Watch.Stands n) t.byPath h.held

variable {t : WatchTable} {n n' : Notifier} {h : Holdings}

theorem stands_empty (n : Notifier) : Stands .empty n .empty := Dict.alike_empty

namespace Stands

theorem mono (stands : t.Stands n h)
    (hn : ∀ e ∈ t.byPath.entries, ∀ i, n.Watches e.2.handle i → n'.Watches e.2.handle i) :
    t.Stands n' h :=
  Dict.Alike.mono stands fun e he _ hw => ⟨hw.flags, hw.known, hn e he _ hw.watches⟩

theorem paths_eq (stands : t.Stands n h) : t.paths = Path.sorted h.held.keys := by
  unfold paths
  rw [Dict.Alike.keys_eq stands]

/-- A path with a handle holds what the handle watches. -/
theorem holding_of_entry? (stands : t.Stands n h) {p : Path} {w : Watch}
    (hentry : t.entry? p = some w) : ∃ v, h.held.find? p = some v ∧ w.Stands n v := by
  have hfind := Dict.Alike.find? stands p
  rw [show t.byPath.find? p = some w from hentry] at hfind
  cases hh : h.held.find? p with
  | none =>
    rw [hh] at hfind
    cases hfind
  | some v =>
    rw [hh] at hfind
    cases hfind with
    | some hw => exact ⟨v, rfl, hw⟩

theorem contains_eq (stands : t.Stands n h) (p : Path) :
    h.held.contains p = (t.entry? p).isSome := by
  rw [← Dict.Alike.contains_eq stands, Dict.contains_eq_isSome]
  rfl

/-- A table demands what the holdings say, and knows the paths that hold something. -/
theorem demand_eq (stands : t.Stands n h) (p : Path) (flags : Mask) :
    t.demand p flags = (h.wanted p flags, h.held.contains p) := by
  rw [stands.contains_eq]
  unfold demand Holdings.wanted
  have hfind := Dict.Alike.find? stands p
  cases hentry : t.entry? p with
  | none =>
    rw [show t.byPath.find? p = none from hentry] at hfind
    generalize h.held.find? p = o at hfind
    cases hfind
    rfl
  | some w =>
    obtain ⟨v, hv, hw⟩ := stands.holding_of_entry? hentry
    simp only [hv, ← hw.flags, Option.isSome_some]

/-- What a path that holds something is registered for has a meaning. -/
theorem known_wanted (stands : t.Stands n h) {p : Path} (hp : h.held.contains p = true)
    (flags : Mask) : (h.wanted p flags).has Mask.known = true := by
  rw [stands.contains_eq, Option.isSome_iff_exists] at hp
  obtain ⟨w, hw⟩ := hp
  obtain ⟨v, hv, hstands⟩ := stands.holding_of_entry? hw
  unfold Holdings.wanted
  rw [hv, Mask.has_or, hstands.known]
  rfl

theorem isLive (stands : t.Stands n h) {p : Path} {g : Handle} (hg : t.handleOf? p = some g) :
    n.isLive g = true := by
  obtain ⟨w, hw, rfl⟩ := handleOf?_eq_some_iff.mp hg
  obtain ⟨v, -, hstands⟩ := stands.holding_of_entry? hw
  exact hstands.watches.isLive

theorem entry_isLive (stands : t.Stands n h) {e : Path × Watch} (he : e ∈ t.byPath.entries) :
    n.isLive e.2.handle = true :=
  stands.isLive (handleOf?_eq_some_iff.mpr ⟨e.2, Dict.find?_of_mem he, rfl⟩)

/-- **A registration** makes a path hold the thing whose handle it got. -/
theorem insert (stands : t.Stands n h) (paired : t.Paired) (sound : n.Sound) {p : Path} {w : Watch}
    {v : Holding} (hw : w.Stands n v) : (t.insert p w).Stands n (h.assign p v) := by
  unfold Stands
  rw [paired.byPath_insert]
  refine Dict.Alike.insert (Dict.Alike.filter stands fun q x y hxy => ?_) p hw
  rw [decide_eq_decide.mpr (not_congr (hxy.watches.handle_eq_iff sound hw.watches))]

/-- **A removal** makes a path hold nothing: to forget its handle is to forget the path. -/
theorem without_handle (stands : t.Stands n h) (paired : t.Paired) {p : Path} {g : Handle}
    (hg : t.handleOf? p = some g) : (t.without [g]).Stands n (h.drop p) := by
  obtain ⟨q, hq, hqp⟩ := owns_iff.mp ((paired p g).mpr hg)
  have hkeep : (t.without [g]).byPath = t.byPath.filter fun q _ => !(q == p) := by
    refine Dict.ext_entries (List.filter_congr fun e he => ?_)
    have hsame := paired.handle_eq_iff hq he
    by_cases heq : (e.1 == q) = true
    · simp only [BEq.trans heq hqp, hsame.mpr heq, List.mem_singleton, not_true_eq_false,
        decide_false, Bool.not_true]
    · have hne : (e.1 == p) = false :=
        Bool.eq_false_iff.mpr fun hep => heq (BEq.trans hep (BEq.symm hqp))
      simp only [hne, mt hsame.mp heq, List.mem_singleton, not_false_eq_true, decide_true,
        Bool.not_false]
  unfold Stands
  rw [hkeep]
  show Dict.Alike _ _ (h.held.filter fun q _ => !(q == p))
  exact Dict.Alike.filter stands fun _ _ _ _ => rfl

/-- A handle that is not live is not missed. -/
theorem without_dead (stands : t.Stands n h) {g : Handle} (dead : n.isLive g = false) :
    (t.without [g]).Stands n h := by
  have hkeep : (t.without [g]).byPath = t.byPath := by
    refine Dict.ext_entries (List.filter_eq_self.mpr fun e he => decide_eq_true ?_)
    rw [List.mem_singleton]
    rintro rfl
    rw [stands.entry_isLive he] at dead
    cases dead
  unfold Stands
  rw [hkeep]
  exact stands

/-- The watch of a handle that is in no pair may be dropped. -/
theorem revoke {g : Handle} (stands : (t.without [g]).Stands n h) :
    (t.without [g]).Stands (n.revoke g).2 h := by
  refine stands.mono fun e he i hw => hw.revoke ?_
  have hkept := of_decide_eq_true (List.mem_filter.mp he).2
  simpa using hkept

end Stands

end WatchTable

end FileWatch
