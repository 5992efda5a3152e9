import FileWatch.Proofs.Interplay.Contention

/-!
# What a path has while callers contend

What a path has is what it is about to have in the table, unless the kernel has dropped it (`alive?`).  A
registration that is granted a watch gives it to its path; a removal that has a watch dropped takes it from
its path.  Nothing else changes what a path has.

For this a handle must not pass from one path to another.  It does not, as long as no thing has two of the
names (`Distinct`).
-/

namespace FileWatch

namespace Interplay

variable {s t : Interplay} {i j : Nat} {p q : Path} {o : WatchOptions} {wanted : Mask} {known : Bool}
  {g h : Handle} {u : Watch} {names : Path → Option Inode}

/-! ## What a path has -/

/-- The watch that a path has or is about to have, unless the kernel has dropped it. -/
def alive? (s : Interplay) (p : Path) : Option Watch :=
  (s.foreseen.entry? p).filter fun u => s.notifier.isLive u.handle

theorem alive?_eq_some_iff : s.alive? p = some u ↔
    s.foreseen.entry? p = some u ∧ s.notifier.isLive u.handle = true :=
  Option.filter_eq_some_iff

theorem Aside.alive? (aside : s.Aside t) (p : Path) : t.alive? p = s.alive? p := by
  obtain ⟨gone, dead, foreseen⟩ := aside.foreseen
  refine Option.ext fun u => ?_
  rw [alive?_eq_some_iff, alive?_eq_some_iff, foreseen, Notifier.isLive_congr aside.roster,
    WatchTable.entry?_without, Option.filter_eq_some_iff, decide_eq_true_eq]
  constructor
  · rintro ⟨⟨hentry, -⟩, live⟩
    exact ⟨hentry, live⟩
  · rintro ⟨hentry, live⟩
    refine ⟨⟨hentry, fun hgone => ?_⟩, live⟩
    rw [dead _ hgone] at live
    cases live

/-- A watch that is dropped is gone from the path that has it. -/
theorem alive?_of_drops (foreseen : t.foreseen = s.foreseen)
    (notifier : t.notifier = (s.notifier.revoke h).2) (p : Path) :
    t.alive? p = (s.alive? p).filter fun u => u.handle ≠ h := by
  refine Option.ext fun u => ?_
  rw [alive?_eq_some_iff, Option.filter_eq_some_iff, alive?_eq_some_iff, foreseen, notifier,
    Notifier.isLive_revoke, Bool.and_eq_true, decide_eq_true_eq, and_assoc]

/-- No thing has two of the names. -/
def Distinct (names : Path → Option Inode) : Prop :=
  ∀ {p q : Path} {inode : Inode}, names p = some inode →
    (names q = some inode ↔ (p == q) = true)

/-- What holds while callers contend.  A path that has a watch names the watched thing; a removal that has
looked up a live watch finds it still there; and where the table has a dead watch, somebody waits for that
to end. -/
structure Contested (names : Path → Option Inode) (s : Interplay) : Prop where
  named : ∀ {p : Path} {u : Watch}, s.alive? p = some u →
    ∃ inode, names p = some inode ∧ s.notifier.Watches u.handle inode
  found : ∀ {i : Nat} {p : Path} {h : Handle}, s.calls[i]? = some (.remove p (.inside (.found h))) →
    s.notifier.isLive h = true → ∃ u, s.alive? p.normalize = some u ∧ u.handle = h
  waited : ∀ {p : Path} {u : Watch}, s.foreseen.entry? p = some u →
    s.notifier.isLive u.handle = false → ∃ (i : Nat) (q : Path),
      s.calls[i]? = some (.remove q (.inside (.waiting u.handle))) ∧ (q.normalize == p) = true

theorem Contested.aside (contested : s.Contested names) (aside : s.Aside t) : t.Contested names where
  named := by
    intro p u hu
    rw [aside.alive?] at hu
    obtain ⟨inode, hname, hwatches⟩ := contested.named hu
    exact ⟨inode, hname, (Notifier.watches_congr aside.roster).mpr hwatches⟩
  found := by
    intro i p h stage live
    rw [Notifier.isLive_congr aside.roster] at live
    have hbefore : s.calls[i]? = some (.remove p (.inside (.found h))) := by
      cases hc : s.calls[i]? with
      | none =>
        have hfresh := aside.fresh hc stage
        cases hfresh
      | some c =>
        obtain ⟨d, hd, hrequest, hstanding⟩ := aside.calls hc
        rw [stage, Option.some.injEq] at hd
        subst hd
        obtain ⟨q, rfl⟩ := Call.eq_found_of_standing hstanding.symm
        cases hrequest
        rfl
    rw [aside.alive?]
    exact contested.found hbefore live
  waited := by
    intro p u hentry dead
    rw [Notifier.isLive_congr aside.roster] at dead
    have hthere : t.foreseen.handleOf? p = some u.handle :=
      WatchTable.handleOf?_eq_some_iff.mpr ⟨u, hentry, rfl⟩
    obtain ⟨gone, -, foreseen⟩ := aside.foreseen
    rw [foreseen, WatchTable.entry?_without, Option.filter_eq_some_iff] at hentry
    obtain ⟨i, q, stage, hq⟩ := contested.waited hentry.1 dead
    refine ⟨i, q, ?_, hq⟩
    rcases aside.waits stage with hstays | hgone
    · exact hstays
    · rw [WatchTable.handleOf?_congr hq] at hgone
      exact absurd hthere hgone

section OneCall

variable {c c' d : Call} (hc : s.calls[i]? = some c) (calls : t.calls = s.calls.set i c')

include hc calls

theorem stays_of_ne (hd : s.calls[j]? = some d) (hne : d ≠ c) : t.calls[j]? = some d := by
  rw [calls, List.getElem?_set_ne, hd]
  rintro rfl
  exact hne (Option.some.inj (hd.symm.trans hc))

theorem stayed_of_ne (hd : t.calls[j]? = some d) (hne : d ≠ c') : s.calls[j]? = some d := by
  rw [calls] at hd
  rw [List.getElem?_set_ne] at hd
  · exact hd
  · rintro rfl
    rw [List.getElem?_set_self (List.getElem?_eq_some_iff.mp hc).1, Option.some.injEq] at hd
    exact hne hd.symm

end OneCall

section Looks

variable {c' : Call} (free : s.tableFree = true)
  (stage : s.calls[i]? = some (.remove p (.inside .admitted)))
  (result : c' = .remove p (match s.table.handleOf? p.normalize with
    | none => .returned (.error (.notWatched p.normalize))
    | some h => .inside (.found h)))

include result

theorem holdsTable_of_looks : c'.holdsTable = false := by
  rw [result]
  cases s.table.handleOf? p.normalize <;> rfl

include free

theorem foreseen_of_looks : (s.put i c').foreseen = s.foreseen := by
  rw [foreseen_of_tableFree free, foreseen_of_tableFree
    (tableFree_set free (holdsTable_of_looks result) rfl)]
  rfl

theorem alive?_of_looks (q : Path) : (s.put i c').alive? q = s.alive? q := by
  unfold alive?
  rw [foreseen_of_looks free result]
  rfl

include stage

theorem Contested.looks (contested : s.Contested names) : (s.put i c').Contested names where
  named hu := contested.named (alive?_of_looks free result _ ▸ hu)
  found := by
    intro j q g hfound live
    rw [alive?_of_looks free result]
    by_cases hnew : Call.remove q (.inside (.found g)) = c'
    · -- what was looked up is what the path has
      rw [result] at hnew
      cases hhandle : s.table.handleOf? p.normalize with
      | none =>
        rw [hhandle] at hnew
        cases hnew
      | some h =>
        rw [hhandle] at hnew
        cases hnew
        obtain ⟨u, hu, rfl⟩ := WatchTable.handleOf?_eq_some_iff.mp hhandle
        rw [← foreseen_of_tableFree free] at hu
        exact ⟨u, alive?_eq_some_iff.mpr ⟨hu, live⟩, rfl⟩
    · exact contested.found (stayed_of_ne stage rfl hfound hnew) live
  waited := by
    intro q u hentry dead
    rw [foreseen_of_looks free result] at hentry
    obtain ⟨j, q', hwaits, hq⟩ := contested.waited hentry dead
    exact ⟨j, q', stays_of_ne stage rfl hwaits nofun, hq⟩

end Looks

section Drops

variable (stage : s.calls[i]? = some (.remove p (.inside (.found h))))
  (after : t = (s.withWatcher { s.watcher with kernel := (s.watcher.kernel.unwatch h).2 }).put i
    (.remove p (.inside (.waiting h))))

include after

theorem notifier_of_drops : t.notifier = (s.notifier.revoke h).2 := by
  rw [after]
  rfl

include stage

theorem foreseen_of_drops : t.foreseen = s.foreseen := by
  rw [after]
  exact foreseen_congr rfl (stored?_set stage rfl rfl)

theorem Contested.drops (hs : Reachable s) (contested : s.Contested names) : t.Contested names := by
  have hcalls : t.calls = s.calls.set i (.remove p (.inside (.waiting h))) := by
    rw [after]
    rfl
  have hnotifier := notifier_of_drops after
  have hforeseen := foreseen_of_drops stage after
  have halive := alive?_of_drops hforeseen hnotifier
  have hlive : ∀ g, t.notifier.isLive g = (s.notifier.isLive g && decide (g ≠ h)) := by
    intro g
    rw [hnotifier, Notifier.isLive_revoke]
  refine ⟨fun {q u} hu => ?_, fun {j q g} hfound live => ?_, fun {q u} hentry dead => ?_⟩
  · rw [halive, Option.filter_eq_some_iff, decide_eq_true_eq] at hu
    obtain ⟨inode, hname, hwatches⟩ := contested.named hu.1
    rw [hnotifier]
    exact ⟨inode, hname, hwatches.revoke hu.2⟩
  · rw [hlive, Bool.and_eq_true, decide_eq_true_eq] at live
    obtain ⟨u, hu, rfl⟩ := contested.found (stayed_of_ne stage hcalls hfound nofun) live.1
    exact ⟨u, by rw [halive, hu, Option.filter_some, if_pos (decide_eq_true live.2)], rfl⟩
  · rw [hforeseen] at hentry
    cases hbefore : s.notifier.isLive u.handle with
    | false =>
      obtain ⟨j, q', hwaits, hq⟩ := contested.waited hentry hbefore
      exact ⟨j, q', stays_of_ne stage hcalls hwaits nofun, hq⟩
    | true =>
      -- It was the removal itself that had the watch dropped, and it waits from now on.
      rw [hlive, hbefore, Bool.true_and, decide_eq_false_iff_not, not_not] at dead
      obtain ⟨v, hv, hhandle⟩ := contested.found stage (dead ▸ hbefore)
      have hsame := (paired_foreseen hs.ordered).beq_of_handle_eq (alive?_eq_some_iff.mp hv).1 hentry
        (hhandle.trans dead.symm)
      refine ⟨i, p, ?_, hsame⟩
      rw [hcalls, dead, List.getElem?_set_self (List.getElem?_eq_some_iff.mp stage).1]

end Drops

section Asks

variable (stage : s.calls[i]? = some (.add p o (.inside (.asking wanted known))))
  (after : t = (s.withWatcher { s.watcher with
    kernel := (s.watcher.arm p.normalize (armed wanted known)).2 }).put i
      (.add p o (.inside (.told wanted (s.watcher.arm p.normalize (armed wanted known)).1))))

include stage after

theorem asks_of_error {f : Failure}
    (refused : s.watcher.arm p.normalize (armed wanted known) = (.error f, s.watcher.kernel)) :
    t.foreseen = s.foreseen ∧ t.notifier = s.notifier ∧
      t.calls = s.calls.set i (.add p o (.inside (.told wanted (.error f)))) := by
  rw [refused] at after
  rw [after]
  exact ⟨foreseen_congr rfl (stored?_set stage rfl rfl), rfl, rfl⟩

theorem asks_of_ok (hs : Reachable s) (ht : Reachable t) {n : Notifier}
    (granted : s.watcher.arm p.normalize (armed wanted known)
      = (.ok h, { s.watcher.kernel with notifier := n })) :
    t.foreseen = s.foreseen.insert p.normalize ⟨h, wanted⟩ ∧ t.notifier = n ∧
      t.calls = s.calls.set i (.add p o (.inside (.told wanted (.ok h)))) := by
  rw [granted] at after
  have htold : t.calls[i]? = some (.add p o (.inside (.told wanted (.ok h)))) := by
    rw [after]
    exact List.getElem?_set_self (List.getElem?_eq_some_iff.mp stage).1
  rw [foreseen_of_told ht htold, foreseen_of_holdsTable hs stage rfl rfl, after]
  exact ⟨rfl, rfl, rfl⟩

end Asks

section Grant

variable {inode : Inode} {flags : Mask} (distinct : Distinct names) (hs : Reachable s)
  (contested : s.Contested names) (name : names p = some inode)
  (granted : (s.notifier.grant inode flags).1 = .ok h)

include distinct hs contested name granted

/-- Another path has another handle. -/
theorem handle_ne_of_grant (hu : s.alive? q = some u) (hq : (p == q) ≠ true) : u.handle ≠ h := by
  obtain ⟨other, hname, hwatches⟩ := contested.named hu
  obtain ⟨hnew, hold⟩ := Notifier.watches_grant granted
  intro heq
  have hsame := ((hold hwatches).handle_eq_iff (hs.ordered.sound.grant granted) hnew).mp heq
  exact hq ((distinct name).mp (hsame ▸ hname))

/-- A path that is granted a watch has it, and other paths have what they had. -/
theorem alive?_of_grant (foreseen : t.foreseen = s.foreseen.insert p ⟨h, wanted⟩)
    (notifier : t.notifier = (s.notifier.grant inode flags).2) (q : Path) :
    t.alive? q = if p == q then some ⟨h, wanted⟩ else s.alive? q := by
  have hlive : ∀ g, t.notifier.isLive g = (s.notifier.isLive g || decide (g = h)) := fun g => by
    rw [notifier, Notifier.isLive_grant granted]
  refine Option.ext fun u => ?_
  rw [alive?_eq_some_iff, foreseen, (paired_foreseen hs.ordered).entry?_insert, hlive]
  by_cases hq : (p == q) = true
  · rw [if_pos hq, if_pos hq, Option.some.injEq]
    refine ⟨And.left, ?_⟩
    rintro rfl
    simp
  · rw [if_neg hq, if_neg hq, Option.filter_eq_some_iff, alive?_eq_some_iff, Bool.or_eq_true,
      decide_eq_true_eq, decide_eq_true_eq]
    constructor
    · rintro ⟨⟨hentry, hne⟩, live⟩
      exact ⟨hentry, live.resolve_right hne⟩
    · rintro ⟨hentry, live⟩
      have hne := handle_ne_of_grant distinct hs contested name granted
        (alive?_eq_some_iff.mpr ⟨hentry, live⟩) hq
      exact ⟨⟨hentry, hne⟩, .inl live⟩

end Grant

/-- What the kernel grants now is nothing that a removal has looked up before. -/
theorem isLive_of_found (hs : Reachable s) {inode : Inode} {flags : Mask}
    (isOpen : s.descriptorOpen = true) (granted : (s.notifier.grant inode flags).1 = .ok h)
    (hfound : s.calls[j]? = some (.remove q (.inside (.found g)))) :
    (s.notifier.grant inode flags).2.isLive g = s.notifier.isLive g := by
  rw [Notifier.isLive_grant granted]
  cases hlive : s.notifier.isLive g with
  | true => rfl
  | false =>
    rw [Bool.false_or, decide_eq_false_iff_not]
    rintro rfl
    rcases Notifier.isLive_or_not_issued hs.ordered.sound granted with live | hnew
    · rw [hlive] at live
      cases live
    · exact hnew ((hs.known isOpen).calls hfound rfl)

theorem Contested.refused {f : Failure} (contested : s.Contested names)
    (stage : s.calls[i]? = some (.add p o (.inside (.asking wanted known))))
    (calls : t.calls = s.calls.set i (.add p o (.inside (.told wanted (.error f)))))
    (foreseen : t.foreseen = s.foreseen) (notifier : t.notifier = s.notifier) :
    t.Contested names ∧ ∀ q, t.alive? q = s.alive? q := by
  have halive : ∀ q, t.alive? q = s.alive? q := by
    intro q
    unfold alive?
    rw [foreseen, notifier]
  refine ⟨⟨fun {q u} hu => ?_, fun {j q g} hfound live => ?_, fun {q u} hentry dead => ?_⟩, halive⟩
  · rw [halive] at hu
    rw [notifier]
    exact contested.named hu
  · rw [notifier] at live
    rw [halive]
    exact contested.found (stayed_of_ne stage calls hfound nofun) live
  · rw [foreseen] at hentry
    rw [notifier] at dead
    obtain ⟨j, q', hwaits, hq⟩ := contested.waited hentry dead
    exact ⟨j, q', stays_of_ne stage calls hwaits nofun, hq⟩

theorem Contested.granted {inode : Inode} {flags : Mask} (distinct : Distinct names)
    (hs : Reachable s) (contested : s.Contested names) (isOpen : s.descriptorOpen = true)
    (stage : s.calls[i]? = some (.add p o (.inside (.asking wanted known))))
    (name : names p.normalize = some inode) (granted : (s.notifier.grant inode flags).1 = .ok h)
    (calls : t.calls = s.calls.set i (.add p o (.inside (.told wanted (.ok h)))))
    (foreseen : t.foreseen = s.foreseen.insert p.normalize ⟨h, wanted⟩)
    (notifier : t.notifier = (s.notifier.grant inode flags).2) : t.Contested names := by
  have halive := alive?_of_grant distinct hs contested name granted foreseen notifier
  obtain ⟨hnew, hold⟩ := Notifier.watches_grant granted
  refine ⟨fun {q u} hu => ?_, fun {j q g} hfound live => ?_, fun {q u} hentry dead => ?_⟩
  · rw [halive] at hu
    rw [notifier]
    split at hu
    · rename_i hq
      cases hu
      exact ⟨inode, (distinct name).mpr hq, hnew⟩
    · obtain ⟨other, hname, hwatches⟩ := contested.named hu
      exact ⟨other, hname, hold hwatches⟩
  · have hbefore := stayed_of_ne stage calls hfound nofun
    rw [notifier, isLive_of_found hs isOpen granted hbefore] at live
    obtain ⟨u, hu, rfl⟩ := contested.found hbefore live
    rw [halive]
    split
    · -- The kernel grants the watch again that is there already.
      rename_i hq
      obtain ⟨other, hname, hwatches⟩ := contested.named hu
      have hsame : other = inode :=
        Option.some.inj (hname.symm.trans ((distinct name).mpr hq))
      refine ⟨_, rfl, ?_⟩
      exact (hnew.handle_eq_iff (hs.ordered.sound.grant granted) (hold hwatches)).mpr hsame.symm
    · exact ⟨u, hu, rfl⟩
  · rw [notifier, Notifier.isLive_grant granted, Bool.or_eq_false_iff, decide_eq_false_iff_not] at dead
    rw [foreseen, (paired_foreseen hs.ordered).entry?_insert] at hentry
    split at hentry
    · cases hentry
      exact absurd rfl dead.2
    · rw [Option.filter_eq_some_iff] at hentry
      obtain ⟨j, q', hwaits, hq⟩ := contested.waited hentry.1 dead.1
      exact ⟨j, q', stays_of_ne stage calls hwaits nofun, hq⟩

end Interplay

end FileWatch
