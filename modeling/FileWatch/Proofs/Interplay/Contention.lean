import FileWatch.Proofs.Interplay.Sequence
import FileWatch.Proofs.Interplay.Served

/-!
# Callers that come at once

Any number of callers register paths and remove them, at any time, while the reader works at its own pace.
No name on disk changes its meaning, no two of the paths name one thing, and the kernel refuses nothing
that it has a handle for.  Moves of this kind are `Contending`.

Where such calls meet is told by few moments (`Stride`): a registration asks the kernel, a removal looks
its path up, a removal has a watch dropped.  All else is `aside`: it changes neither what a call is going
to return (`Call.standing`) nor what the table is about to be (`foreseen`), but for pairs whose watch is
dead.
-/

namespace FileWatch

namespace Interplay

variable {s t : Interplay} {m : Move} {i j : Nat} {p q : Path} {o : WatchOptions} {wanted : Mask}
  {known : Bool} {g h : Handle} {u : Watch} {find : Bool → Path → Except Errno Inode}
  {names : Path → Option Inode}

/-! ## Moves -/

/-- What the table has for a path is a watch that the kernel has dropped. -/
def Dying (s : Interplay) (p : Path) : Prop :=
  ∃ u, s.table.entry? p = some u ∧ s.notifier.isLive u.handle = false

/-- Moves of callers that register and remove paths, where each path names at most one thing. -/
inductive Contending (names : Path → Option Inode) (s : Interplay) : Move → Prop
  | add {p : Path} {o : WatchOptions}
    (named : ∀ follow inode, s.watcher.kernel.tree.find follow p.normalize = .ok inode →
      names p.normalize = some inode) : Contending names s (.begin (.add p o .arriving))
  | remove (p : Path) : Contending names s (.begin (.remove p .arriving))
  /-- A call makes its next step.  A registration of a path whose watch is being removed asks for what that
  watch was registered for, too; it is led where it would be led without. -/
  | call {i : Nat} (apt : ∀ {p o wanted known},
      s.calls[i]? = some (Call.add p o (.inside (.asking wanted known))) → s.Dying p.normalize →
        Holdings.verdict s.watcher.kernel.tree.find p.normalize (armed wanted known) none
          = Holdings.verdict s.watcher.kernel.tree.find p.normalize o.flags none) :
    Contending names s (.call i)
  | timeout (i : Nat) : Contending names s (.timeout i)
  | reader : Contending names s .reader
  | fault (f : Failure) : Contending names s (.fault f)
  /-- Anything is told but that a watched thing got another name. -/
  | queue {r : Record} (stays : (r.mask.has Mask.moveSelf && r.name.isNone) = false) :
    Contending names s (.queue r)
  | disk {tree : Tree} (same : tree.find = s.watcher.kernel.tree.find) : Contending names s (.disk tree)
  | takeEvents : Contending names s .takeEvents
  | takeErrors : Contending names s .takeErrors
  | abandonEvents : Contending names s .abandonEvents
  | abandonErrors : Contending names s .abandonErrors

theorem Contending.tame (contending : Contending names s m) : Tame s m := by
  cases contending with
  | add | remove => exact nofun
  | queue stays => exact stays
  | disk same => exact same
  | call | timeout | reader | fault | takeEvents | takeErrors | abandonEvents | abandonErrors => trivial

/-! ## What a call is going to return -/

/-- What is settled about a call. -/
inductive Standing where
  | undecided
  /-- A removal has looked up what its path has, and has not yet had it dropped. -/
  | seeking (handle : Handle)
  /-- It has returned this, or returns it in any case. -/
  | decided (outcome : Errand.Outcome)

def Call.standing : Call → Standing
  | .add _ _ (.inside (.told _ granted)) => .decided (.done (granted.map fun _ => ()))
  | .remove _ (.inside (.found h)) => .seeking h
  | .remove _ (.inside (.waiting _)) => .decided (.done (.ok ()))
  | c => match c.outcome? with
    | some outcome => .decided outcome
    | none => .undecided

theorem Call.eq_found_of_standing {c : Call} (hc : c.standing = .seeking h) :
    ∃ p, c = .remove p (.inside (.found h)) := by
  unfold Call.standing at hc
  split at hc
  · cases hc
  · cases hc
    exact ⟨_, rfl⟩
  · cases hc
  · split at hc <;> cases hc

theorem Call.standing_of_hasReturned {c : Call} (hc : c.hasReturned = true) :
    ∃ outcome, c.outcome? = some outcome ∧ c.standing = .decided outcome := by
  unfold Call.hasReturned at hc
  split at hc <;> first | exact ⟨_, rfl, rfl⟩ | cases hc

/-- The path and the watch that a registration is about to store. -/
def Call.stored? : Call → Option (Path × Watch)
  | .add p _ (.inside (.told wanted (.ok h))) => some (p.normalize, ⟨h, wanted⟩)
  | _ => none

/-- The table, when the registration that the kernel has answered has stored the answer. -/
def foreseen (s : Interplay) : WatchTable :=
  match s.calls.findSome? Call.stored? with
  | some (p, w) => s.table.insert p w
  | none => s.table

theorem Call.holdsTable_of_stored? {c : Call} {e : Path × Watch} (hc : c.stored? = some e) :
    c.holdsTable = true := by
  unfold Call.stored? at hc
  split at hc
  · rfl
  · cases hc

theorem foreseen_of_none (none : ∀ c ∈ s.calls, c.stored? = .none) : s.foreseen = s.table := by
  unfold foreseen
  rw [List.findSome?_eq_none_iff.mpr none]

theorem foreseen_of_tableFree (free : s.tableFree = true) : s.foreseen = s.table := by
  refine foreseen_of_none fun c hc => ?_
  obtain ⟨i, hi⟩ := List.mem_iff_getElem?.mp hc
  cases hstored : c.stored? with
  | none => rfl
  | some e => exact absurd free (not_tableFree hi (Call.holdsTable_of_stored? hstored))

theorem tableFree_set {c : Call} (free : s.tableFree = true) (holds : c.holdsTable = false)
    (calls : t.calls = s.calls.set i c) : t.tableFree = true := by
  refine List.all_eq_true.mpr fun d hd => ?_
  rw [calls] at hd
  rcases List.mem_or_eq_of_mem_set hd with hold | rfl
  · exact List.all_eq_true.mp free d hold
  · rw [holds]
    rfl

/-- Who holds the table and has nothing to store foresees no change. -/
theorem foreseen_of_holdsTable (hs : Reachable s) {c : Call} (hc : s.calls[i]? = some c)
    (holds : c.holdsTable = true) (hnone : c.stored? = none) : s.foreseen = s.table := by
  refine foreseen_of_none fun d hd => ?_
  obtain ⟨j, hj⟩ := List.mem_iff_getElem?.mp hd
  cases hstored : d.stored? with
  | none => rfl
  | some e =>
    obtain rfl := hs.alone hc hj holds (Call.holdsTable_of_stored? hstored)
    rw [hc, Option.some.injEq] at hj
    subst hj
    rw [hnone] at hstored
    cases hstored

theorem foreseen_of_told (hs : Reachable s)
    (stage : s.calls[i]? = some (.add p o (.inside (.told wanted (.ok h))))) :
    s.foreseen = s.table.insert p.normalize ⟨h, wanted⟩ := by
  unfold foreseen
  cases hfound : s.calls.findSome? Call.stored? with
  | none =>
    have hnone := List.findSome?_eq_none_iff.mp hfound _ (List.mem_of_getElem? stage)
    cases hnone
  | some e =>
    obtain ⟨d, hd, hstored⟩ := List.exists_of_findSome?_eq_some hfound
    obtain ⟨j, hj⟩ := List.mem_iff_getElem?.mp hd
    obtain rfl := hs.alone stage hj rfl (Call.holdsTable_of_stored? hstored)
    rw [stage, Option.some.injEq] at hj
    subst hj
    cases hstored
    rfl

theorem foreseen_congr (table : t.table = s.table)
    (calls : t.calls.map Call.stored? = s.calls.map Call.stored?) : t.foreseen = s.foreseen := by
  have hsame : t.calls.findSome? Call.stored? = s.calls.findSome? Call.stored? := by
    have hid := congrArg (List.findSome? id) calls
    rwa [List.findSome?_map, List.findSome?_map] at hid
  unfold foreseen
  rw [hsame, table]

theorem paired_foreseen (ordered : s.Ordered) : s.foreseen.Paired := by
  unfold foreseen
  split
  · exact ordered.paired.insert _ _
  · exact ordered.paired

/-! ## Moments -/

/-- Nothing is settled about any call, and what is about to be in the table stays, but for pairs whose
watch is dead.  A removal stops waiting only for what will not be there. -/
structure Aside (s t : Interplay) : Prop where
  calls : ∀ {i : Nat} {c : Call}, s.calls[i]? = some c →
    ∃ d, t.calls[i]? = some d ∧ d.request = c.request ∧ d.standing = c.standing
  fresh : ∀ {i : Nat} {d : Call}, s.calls[i]? = none → t.calls[i]? = some d → d.standing = .undecided
  waits : ∀ {i : Nat} {p h}, s.calls[i]? = some (.remove p (.inside (.waiting h))) →
    t.calls[i]? = some (.remove p (.inside (.waiting h))) ∨
      t.foreseen.handleOf? p.normalize ≠ some h
  foreseen : ∃ gone : List Handle, (∀ g ∈ gone, s.notifier.isLive g = false) ∧
    t.foreseen = s.foreseen.without gone
  roster : t.notifier.roster = s.notifier.roster

/-- What a contending move comes to. -/
inductive Stride (s : Interplay) (m : Move) (t : Interplay) : Prop
  | aside (aside : s.Aside t)
  /-- A registration asks the kernel for a watch. -/
  | asks (i : Nat) (p : Path) (o : WatchOptions) (wanted : Mask) (known : Bool) (mover : m = .call i)
    (stage : s.calls[i]? = some (.add p o (.inside (.asking wanted known))))
    (after : t = (s.withWatcher { s.watcher with
      kernel := (s.watcher.arm p.normalize (armed wanted known)).2 }).put i
        (.add p o (.inside (.told wanted (s.watcher.arm p.normalize (armed wanted known)).1))))
  /-- A removal looks up what its path has. -/
  | looks (i : Nat) (p : Path) (free : s.tableFree = true)
    (stage : s.calls[i]? = some (.remove p (.inside .admitted)))
    (after : t = s.put i (.remove p (match s.table.handleOf? p.normalize with
      | none => .returned (.error (.notWatched p.normalize))
      | some h => .inside (.found h))))
  /-- A removal has the watch dropped. -/
  | drops (i : Nat) (p : Path) (h : Handle)
    (stage : s.calls[i]? = some (.remove p (.inside (.found h))))
    (after : t = (s.withWatcher { s.watcher with kernel := (s.watcher.kernel.unwatch h).2 }).put i
      (.remove p (.inside (.waiting h))))

section Aside

variable {c c' : Call} (hc : s.calls[i]? = some c) (calls : t.calls = s.calls.set i c')

include hc calls

theorem stored?_set (stored : c'.stored? = c.stored?) :
    t.calls.map Call.stored? = s.calls.map Call.stored? := by
  rw [calls, List.map_set, stored]
  refine set_self ?_
  rw [List.getElem?_map, hc]
  rfl

/-- A call goes on, and nothing is settled by that. -/
theorem Aside.of_set (request : c'.request = c.request) (standing : c'.standing = c.standing)
    (waits : ∀ {p h}, c = .remove p (.inside (.waiting h)) →
      t.foreseen.handleOf? p.normalize ≠ some h)
    (gone : List Handle) (dead : ∀ g ∈ gone, s.notifier.isLive g = false)
    (foreseen : t.foreseen = s.foreseen.without gone)
    (roster : t.notifier.roster = s.notifier.roster) : s.Aside t where
  calls := by
    intro j d hd
    by_cases hij : i = j
    · subst hij
      rw [hc, Option.some.injEq] at hd
      subst hd
      rw [calls, List.getElem?_set_self (List.getElem?_eq_some_iff.mp hc).1]
      exact ⟨c', rfl, request, standing⟩
    · rw [calls, List.getElem?_set_ne hij]
      exact ⟨d, hd, rfl, rfl⟩
  fresh := by
    intro j d hnone hd
    rw [calls, List.getElem?_set] at hd
    split at hd
    · subst_vars
      rw [hc] at hnone
      cases hnone
    · rw [hnone] at hd
      cases hd
  waits := by
    intro j q g hd
    by_cases hij : i = j
    · subst hij
      rw [hc, Option.some.injEq] at hd
      exact .inr (waits hd)
    · rw [calls, List.getElem?_set_ne hij]
      exact .inl hd
  foreseen := ⟨gone, dead, foreseen⟩
  roster := roster

/-- A call goes on that does not wait, and stores nothing. -/
theorem Aside.of_step (request : c'.request = c.request) (standing : c'.standing = c.standing)
    (awake : ∀ {p h}, c ≠ .remove p (.inside (.waiting h))) (stored : c'.stored? = c.stored?)
    (table : t.table = s.table) (notifier : t.notifier = s.notifier) : s.Aside t := by
  refine .of_set hc calls request standing (fun h => absurd h awake) []
    (List.forall_mem_nil _) ?_ ?_
  · rw [WatchTable.without_nil]
    exact foreseen_congr table (stored?_set hc calls stored)
  · rw [notifier]

end Aside

/-- Nothing is settled while no call makes a step. -/
theorem Aside.of_calls (calls : t.calls = s.calls) (gone : List Handle)
    (dead : ∀ g ∈ gone, s.notifier.isLive g = false)
    (foreseen : t.foreseen = s.foreseen.without gone)
    (roster : t.notifier.roster = s.notifier.roster) : s.Aside t where
  calls hc := ⟨_, calls ▸ hc, rfl, rfl⟩
  fresh hnone hd := by
    rw [calls, hnone] at hd
    cases hd
  waits hd := .inl (calls ▸ hd)
  foreseen := ⟨gone, dead, foreseen⟩
  roster := roster

/-- A call that is made is undecided. -/
theorem Aside.of_begin {c : Call} (fresh : c.isFresh = true) (calls : t.calls = s.calls ++ [c])
    (table : t.table = s.table) (notifier : t.notifier = s.notifier) : s.Aside t where
  calls := by
    intro i d hd
    rw [calls, List.getElem?_append_left (List.getElem?_eq_some_iff.mp hd).1]
    exact ⟨d, hd, rfl, rfl⟩
  fresh := by
    intro i d hnone hd
    rw [calls] at hd
    rcases getElem?_concat_cases hd with hold | ⟨-, rfl⟩
    · rw [hnone] at hold
      cases hold
    · unfold Call.isFresh at fresh
      split at fresh <;> first | rfl | cases fresh
  waits := by
    intro i p h hd
    rw [calls, List.getElem?_append_left (List.getElem?_eq_some_iff.mp hd).1]
    exact .inl hd
  foreseen := by
    refine ⟨[], List.forall_mem_nil _, ?_⟩
    have hstored : c.stored? = none := by
      unfold Call.isFresh at fresh
      split at fresh <;> first | rfl | cases fresh
    rw [WatchTable.without_nil, Interplay.foreseen, Interplay.foreseen, calls, table,
      List.findSome?_append]
    simp [hstored]
  roster := by rw [notifier]

/-! ## Every move is a stride -/

theorem aside_of_others (hs : Reachable s) (calm : s.Calm find) (tame : Tame s m)
    (hfire : s.fire m = some t) (mover : m.caller? = none) : s.Aside t := by
  cases (effect_of_fire hs.legible hfire).2 with
  | newcomer c hbegin fresh =>
    subst hbegin
    simp only [fire, if_pos fresh, Option.some.injEq] at hfire
    subst hfire
    exact .of_begin fresh rfl rfl rfl
  | one i c c' hcaller =>
    rw [mover] at hcaller
    cases hcaller
  | none _ hcalls _ =>
    obtain ⟨hwatches, hgranted, htable⟩ := around_of_fire hs calm tame hfire mover
    have hroster := Notifier.roster_of_eq hwatches hgranted
    have hsame : t.table = s.table → s.Aside t := by
      intro htable
      refine .of_calls hcalls [] (List.forall_mem_nil _) ?_ hroster
      rw [WatchTable.without_nil]
      exact foreseen_congr htable (congrArg _ hcalls)
    rcases htable with ⟨htable, -⟩ | ⟨g, dead, htable, -⟩
    · exact hsame htable
    · -- Nobody takes anything out of the table while a registration holds it.
      cases hfree : s.tableFree with
      | true =>
        have hfree' : t.tableFree = true := by
          unfold tableFree
          rw [hcalls]
          exact hfree
        refine .of_calls hcalls [g] (fun g' hg' => List.mem_singleton.mp hg' ▸ dead) ?_
          hroster
        rw [foreseen_of_tableFree hfree, foreseen_of_tableFree hfree', htable]
      | false =>
        obtain ⟨c, hc, hholds⟩ := List.all_eq_false.mp hfree
        obtain ⟨i, hi⟩ := List.mem_iff_getElem?.mp hc
        exact hsame (table_of_holdsTable hs hfire hi (by simpa using hholds)
          (by simp [mover]))

/-- A registration that stores what it was granted does what was foreseen. -/
theorem aside_of_stored (hs : Reachable s)
    (stage : s.calls[i]? = some (.add p o (.inside (.told wanted (.ok h)))))
    (calls : t.calls = s.calls.set i (.add p o (.returned (.ok ()))))
    (table : t.table = s.table.insert p.normalize ⟨h, wanted⟩)
    (notifier : t.notifier = s.notifier) : s.Aside t := by
  refine .of_set stage calls rfl rfl (by rintro q g ⟨⟩) [] (List.forall_mem_nil _) ?_
    (by rw [notifier])
  rw [WatchTable.without_nil, foreseen_of_told hs stage, ← table]
  -- Nobody else has anything to store.
  refine foreseen_of_none fun c hc => ?_
  obtain ⟨j, hj⟩ := List.mem_iff_getElem?.mp hc
  rw [calls] at hj
  by_cases hij : i = j
  · subst hij
    rw [List.getElem?_set_self (List.getElem?_eq_some_iff.mp stage).1, Option.some.injEq] at hj
    subst hj
    rfl
  · rw [List.getElem?_set_ne hij] at hj
    cases hstored : c.stored? with
    | none => rfl
    | some e => exact absurd (hs.alone stage hj rfl (Call.holdsTable_of_stored? hstored)) hij

/-- A removal is done with waiting, and what it waits for is not in the table then. -/
theorem aside_of_removed (stage : s.calls[i]? = some (.remove p (.inside (.waiting h))))
    (free : s.tableFree = true)
    (calls : t.calls = s.calls.set i (.remove p (.returned (.ok ()))))
    (gone : t.table.handleOf? p.normalize ≠ some h) (lost : List Handle)
    (dead : ∀ g ∈ lost, s.notifier.isLive g = false) (table : t.table = s.table.without lost)
    (notifier : t.notifier = s.notifier) : s.Aside t := by
  have hforeseen : t.foreseen = t.table := foreseen_of_tableFree (tableFree_set free rfl calls)
  refine .of_set stage calls rfl rfl ?_ lost dead ?_ (by rw [notifier])
  · rintro q g ⟨⟩
    rw [hforeseen]
    exact gone
  · rw [hforeseen, foreseen_of_tableFree free, table]

/-- What callers want who are not done. -/
def Wants (find : Bool → Path → Except Errno Inode) (names : Path → Option Inode) : Request → Prop
  | .add p _ => ∀ follow inode, find follow p.normalize = .ok inode →
      names p.normalize = some inode
  | .remove _ => True
  | .list => False
  | .close => False

/-- Callers who are not done register paths and remove them. -/
def Busy (find : Bool → Path → Except Errno Inode) (names : Path → Option Inode)
    (s : Interplay) : Prop := ∀ c ∈ s.calls, c.hasReturned = false → Wants find names c.request

theorem Busy.of_fire (hs : Reachable s) (calm : s.Calm find) (busy : s.Busy find names)
    (contending : Contending names s m) (hfire : s.fire m = some t) : t.Busy find names := by
  intro c hc hopen
  obtain ⟨i, hi⟩ := List.mem_iff_getElem?.mp hc
  rcases call_of_touches (effect_of_fire hs.legible hfire).2 hi
    with hsame | ⟨-, rfl, -⟩ | ⟨d, mover, hd, passes⟩
  · exact busy c (List.mem_of_getElem? hsame) hopen
  · cases contending with
    | add named =>
      rw [calm.tree] at named
      exact named
    | remove p => trivial
  · rw [passes.request]
    refine busy d (List.mem_of_getElem? hd) ?_
    cases hreturned : d.hasReturned with
    | false => rfl
    | true =>
      rw [fire_returned hd hreturned mover] at hfire
      cases hfire

theorem stride_of_callStep (hs : Reachable s) (calm : s.Calm find) {c c' : Call} {v : Interplay}
    (stage : s.calls[i]? = some c) (wants : Wants find names c.request)
    (contending : Contending names s m) (step : s.CallStep i m c c' v) :
    s.Stride m (v.put i c') := by
  cases step with
  | addKnocks knock | removeKnocks knock =>
    rcases calm.knock knock with ⟨rfl, rfl⟩ | ⟨rfl, rfl⟩
    · exact .aside (.of_step stage rfl rfl rfl (by rintro q g ⟨⟩) rfl rfl rfl)
    · exact .aside (.of_step stage rfl rfl rfl (by rintro q g ⟨⟩) rfl rfl rfl)
  | addLooks | addFails =>
    exact .aside (.of_step stage rfl rfl rfl (by rintro q g ⟨⟩) rfl rfl rfl)
  | addAsks answer => exact .asks i _ _ _ _ rfl stage (by rw [answer])
  | addStores => exact .aside (aside_of_stored hs stage rfl rfl rfl)
  | removeMisses free missing => exact .looks i _ free stage (by rw [missing])
  | removeFinds free found => exact .looks i _ free stage (by rw [found])
  | removeAsks => exact .drops i _ _ stage rfl
  | removeShutOut shut => cases calm.atWork.isOpen.symm.trans shut
  | removeConfirmed free awake gone | removeTimesOut free asleep limited gone =>
    exact .aside (aside_of_removed stage free rfl (hs.ordered.paired.handleOf?_ne_of_owns gone) []
      (List.forall_mem_nil _) (WatchTable.without_nil _).symm rfl)
  | removeSleeps =>
    rw [put, set_self stage]
    exact .aside (.of_calls rfl [] (List.forall_mem_nil _) (WatchTable.without_nil _).symm rfl)
  | @removeForces p h free =>
    rw [hs.ordered.paired.removeHandle_eq]
    refine .aside (aside_of_removed stage free rfl (WatchTable.handleOf?_without_ne _) [h] ?_
      rfl rfl)
    intro g hg
    rw [List.mem_singleton.mp hg]
    exact (spent_of_waiting hs stage).dead
  | addRefused | closeUnheard => cases contending
  | listKnocks | listReads | closeFindsClosed | closeEnters | closeAnnounces | closeWakes
  | closeMisses | closeJoins | closeFails | closeReleases | closeClears | closeEnds => cases wants

/-- **Every move is a stride.** -/
theorem stride_of_fire (hs : Reachable s) (calm : s.Calm find) (busy : s.Busy find names)
    (contending : Contending names s m) (hfire : s.fire m = some t) : s.Stride m t := by
  cases hmover : m.caller? with
  | none => exact .aside (aside_of_others hs calm contending.tame hfire hmover)
  | some i =>
    obtain ⟨c, c', v, stage, step, rfl⟩ := exists_callStep hmover hfire
    refine stride_of_callStep hs calm stage (busy c (List.mem_of_getElem? stage) ?_) contending step
    cases hreturned : c.hasReturned with
    | false => rfl
    | true =>
      rw [fire_returned stage hreturned hmover] at hfire
      cases hfire

end Interplay

end FileWatch
