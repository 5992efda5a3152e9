import Mathlib
import FileWatch.Proofs.Interplay.Asking

/-!
# Watches that nobody can remove

A caller can remove a watch if its handle stands for a path that is watched.  A watch that is live gets
into the table with the registration that is granted it, and what is taken out of the table is dead:
the reader takes out what the kernel says is gone, and a removal what it had the kernel drop.

There is one exception.  A registration of a path that has a handle already may be granted another
one, because the path leads to another thing by now.  Then the table forgets the old handle, and nobody
has the kernel drop it.  It goes astray: it is live, it stands for nothing, and what the kernel tells
under it is thrown away, until it is granted to somebody again (`Astray`).  This is the only way for a
watch to be out of reach (`live_within_reach`), and it can happen (`live_out_of_reach`).
-/

namespace FileWatch

namespace Interplay

variable {s t : Interplay} {m : Move} {i : Nat} {p q : Path} {o : WatchOptions} {wanted : Mask}
  {g h : Handle} {w : Watch}

/-- Every move but a registration that stores the handle. -/
def Unstored (h : Handle) (s : Interplay) (m : Move) : Prop :=
  ∀ i p o wanted, m = .call i → s.calls[i]? ≠ some (.add p o (.inside (.told wanted (.ok h))))

/-- A path that had the handle was registered again and got another one; and nobody has stored the
handle since. -/
def Astray (s : Interplay) (h : Handle) : Prop :=
  ∃ (u v : Interplay) (i : Nat) (p : Path) (o : WatchOptions) (wanted : Mask) (g : Handle),
    Reachable u ∧ u.table.handleOf? p.normalize = some h ∧
      u.calls[i]? = some (.add p o (.inside (.told wanted (.ok g)))) ∧ g ≠ h ∧
      u.fire (.call i) = some v ∧ Leads (Unstored h) v s

/-- Where a live handle is: in the table, held by the registration that was granted it, or astray. -/
inductive Located (s : Interplay) (h : Handle) : Prop
  | known (p : Path) (resolves : s.table.resolve? h = some p)
  | held (held : h ∈ s.held)
  | astray (astray : s.Astray h)

theorem Astray.of_fire (astray : s.Astray h) (unstored : Unstored h s m)
    (hfire : s.fire m = some t) : t.Astray h := by
  obtain ⟨u, v, i, p, o, wanted, g, hu, finds, stage, hne, stored, since⟩ := astray
  exact ⟨u, v, i, p, o, wanted, g, hu, finds, stage, hne, stored, .step since unstored hfire⟩

/-- What the table forgets while it is live is displaced. -/
theorem located_of_resolved (hs : Reachable s) (hfire : s.fire m = some t)
    (resolves : s.table.resolve? h = some p) (live : t.notifier.isLive h = true) :
    t.Located h := by
  have ordered := hs.ordered
  have heffect := (effect_of_fire hs.legible hfire).1
  rcases altered_of_fire hfire with hsame | alters
  · exact .known p (hsame ▸ resolves)
  have hother : ∀ {g}, s.Spent g → (s.table.removeHandle g).2.resolve? h = some p := by
    intro g spent
    have hne : g ≠ h := by
      rintro rfl
      exact (spent.of_effect ordered heffect).ne_of_isLive live rfl
    rw [ordered.paired.resolve?_removeHandle hne]
    exact resolves
  cases alters with
  | purge r _ hand last table =>
    exact .known p (table ▸ hother (ordered.spent r (mem_pending hand rfl) last))
  | force j q g _ waiting _ table => exact .known p (table ▸ hother (spent_of_waiting hs waiting))
  | wipe by_whom =>
    -- The table is cleared when the descriptor is closed, and then nothing is live.
    have ht : Reachable t := hs.leads (.step .refl trivial hfire : Leads Anything s t)
    have hopen := ht.ordered.open_of_isLive live
    rw [(onward_of_effect heffect).not_open (hs.ending.closed_of_wipe by_whom)] at hopen
    cases hopen
  | store i q o wanted g mover stage table =>
    subst mover
    by_cases hg : g = h
    · refine .known q.normalize ?_
      rw [table, WatchTable.resolve?_insert, if_pos hg]
    · by_cases finds : s.table.handleOf? q.normalize = some h
      · exact .astray ⟨s, t, i, q, o, wanted, g, hs, finds, stage, hg, hfire, .refl⟩
      · refine .known p ?_
        rw [table, WatchTable.resolve?_insert, if_neg hg, if_neg finds, resolves]

/-- A handle that is held is held or stored by the next move. -/
theorem located_of_held (hs : Reachable s) (hfire : s.fire m = some t) (held : h ∈ s.held) :
    t.Located h := by
  obtain ⟨i, q, o, wanted, stage⟩ := exists_stage_of_mem_held held
  rcases holds_or_stores hs.legible stage hfire with hstays | ⟨-, rfl⟩
  · exact .held (mem_held hstays)
  · refine .known q.normalize ?_
    show (s.table.insert q.normalize ⟨h, wanted⟩).resolve? h = _
    rw [WatchTable.resolve?_insert, if_pos rfl]

/-- What is live afterwards was live before, or was granted in this move. -/
theorem live_or_held (hs : Reachable s) (hfire : s.fire m = some t)
    (live : t.notifier.isLive h = true) : s.notifier.isLive h = true ∨ h ∈ t.held := by
  obtain ⟨v, hv, rfl⟩ := Notifier.isLive_iff.mp live
  rcases watches_of_effect (effect_of_fire hs.legible hfire).1 with
    hfewer | ⟨i, _, _, _, _, _, g, -, granted⟩
  · exact .inl (Notifier.isLive_iff.mpr ⟨v, hfewer hv, rfl⟩)
  · rw [granted.notifier] at hv
    rcases Notifier.mem_watches_grant hs.ordered.sound granted.granted hv with ⟨hold, -⟩ | ⟨hh, -⟩
    · exact .inl (Notifier.isLive_iff.mpr ⟨v, hold, rfl⟩)
    · exact .inr (hh ▸ mem_held granted.after)

theorem Located.of_fire (hs : Reachable s) (hfire : s.fire m = some t)
    (live : t.notifier.isLive h = true) (located : s.Located h) : t.Located h := by
  cases located with
  | known p resolves => exact located_of_resolved hs hfire resolves live
  | held held => exact located_of_held hs hfire held
  | astray astray =>
    by_cases unstored : Unstored h s m
    · exact .astray (astray.of_fire unstored hfire)
    · simp only [Unstored, not_forall, not_not] at unstored
      obtain ⟨i, p, o, wanted, -, stage⟩ := unstored
      exact located_of_held hs hfire (mem_held stage)

/-- **Every live watch is somewhere.** -/
theorem Reachable.located (hs : Reachable s) (live : s.notifier.isLive h = true) : s.Located h := by
  obtain ⟨settings, tree, limit, hstart⟩ := hs
  induction hstart with
  | refl => cases live
  | step before _ fired ih =>
    have hv : Reachable _ := ⟨settings, tree, limit, before⟩
    rcases live_or_held hv fired live with hbefore | held
    · exact (ih hbefore).of_fire hv fired live
    · exact .held held

/-! ## What has gone astray stands for nothing -/

theorem unresolved_of_leads (hs : Reachable s) (since : Leads (Unstored h) s t)
    (unresolved : s.table.resolve? h = none) : t.table.resolve? h = none := by
  induction since with
  | refl => exact unresolved
  | step before unstored fired ih =>
    exact resolve?_of_fire (hs.leads before).ordered fired unstored ih

theorem Astray.unresolved (astray : s.Astray h) : s.table.resolve? h = none := by
  obtain ⟨u, v, i, p, o, wanted, g, hu, finds, stage, hne, fired, since⟩ := astray
  have hv : Reachable v := hu.leads (.step .refl trivial fired : Leads Anything u v)
  apply unresolved_of_leads hv since
  have hstored := stores_of_told stage fired
  subst hstored
  show (u.table.insert p.normalize ⟨g, wanted⟩).resolve? h = none
  rw [WatchTable.resolve?_insert, if_neg hne, if_pos finds]

/-! ## What a caller can reach -/

/-- A handle stands for a path exactly if it stands for one that is watched. -/
theorem reaches_iff (paired : s.table.Paired) (isOpen : s.watcher.ensureOpen = .ok ()) :
    (∃ p ∈ s.watcher.watchList, s.table.owns p h = true) ↔ ∃ p, s.table.resolve? h = some p := by
  have hlist : s.watcher.watchList = s.table.paths := by
    unfold Watcher.watchList
    rw [isOpen]
    rfl
  rw [hlist]
  constructor
  · rintro ⟨p, -, howns⟩
    obtain ⟨q, hq, -⟩ := WatchTable.owns_iff.mp howns
    exact ⟨q, hq⟩
  · rintro ⟨q, hq⟩
    obtain ⟨w, hw, -⟩ := WatchTable.handleOf?_eq_some_iff.mp (paired.handleOf?_of_resolve? hq)
    obtain ⟨k, hk, hkey⟩ := Dict.find?_eq_some_iff.mp hw
    refine ⟨k, ?_, WatchTable.owns_iff.mpr ⟨q, hq, BEq.symm hkey⟩⟩
    unfold WatchTable.paths Path.sorted
    rw [List.mem_mergeSort]
    exact List.mem_map.mpr ⟨_, hk, rfl⟩

/-- **A live watch is within reach, unless it has gone astray.**  That it is held by a registration
that has not stored it yet is left out: that one holds the table, so that nobody can look. -/
theorem live_within_reach (hs : Reachable s) (isOpen : s.watcher.ensureOpen = .ok ())
    (live : s.notifier.isLive h = true) (unheld : h ∉ s.held) :
    (∃ p ∈ s.watcher.watchList, s.table.owns p h = true) ↔ ¬ s.Astray h := by
  rw [reaches_iff hs.ordered.paired isOpen]
  constructor
  · rintro ⟨p, hp⟩ astray
    rw [astray.unresolved] at hp
    cases hp
  · intro found
    cases hs.located live with
    | known p resolves => exact ⟨p, resolves⟩
    | held held => exact absurd held unheld
    | astray astray => exact absurd astray found

/-- A directory with a link in it that leads back to the directory. -/
def looped : Tree := (Tree.fresh.add Tree.here [0x6C] (.link ⟨[dot]⟩)).2

/-- The link is registered for what it leads to, and then for itself. -/
def relinking : List Move :=
  .begin (.add ⟨[0x6C]⟩ (.new .write) .arriving) :: List.replicate 5 (.call 0) ++
    .begin (.add ⟨[0x6C]⟩ (WatchOptions.new .chmod).withoutFollowing .arriving) ::
      List.replicate 5 (.call 1)

theorem live_within_reach_relinking : ∃ s : Interplay,
    (start .default looped 16).run relinking = some s ∧ s.watcher.ensureOpen = .ok () ∧
      s.held = [] ∧ s.notifier.isLive ⟨1⟩ = true ∧ s.notifier.isLive ⟨2⟩ = true ∧
      s.Astray ⟨1⟩ ∧ ¬ s.Astray ⟨2⟩ := by
  have hrun : ((start .default looped 16).run relinking).map (fun s =>
      (s.watcher.ensureOpen.isOk, s.held, s.notifier.isLive ⟨1⟩, s.notifier.isLive ⟨2⟩,
        s.watcher.watchList, s.table.owns ⟨[0x6C]⟩ ⟨1⟩, s.table.owns ⟨[0x6C]⟩ ⟨2⟩))
      = some (true, [], true, true, [⟨[0x6C]⟩], false, true) := by cbv
  obtain ⟨s, hs, hvalues⟩ := Option.map_eq_some_iff.mp hrun
  simp only [Prod.mk.injEq] at hvalues
  obtain ⟨hok, hheld, hfirst, hsecond, hlist, hlost, hfound⟩ := hvalues
  have hopen : s.watcher.ensureOpen = .ok () := by
    cases hensure : s.watcher.ensureOpen with
    | ok => rfl
    | error f =>
      rw [hensure] at hok
      cases hok
  have hreachable : Reachable s := ⟨_, _, _, leads_of_run hs⟩
  have hnot : ∀ h, h ∉ s.held := fun h => by
    rw [hheld]
    exact List.not_mem_nil
  have hreach := live_within_reach hreachable hopen hsecond (hnot ⟨2⟩)
  have hastray := live_within_reach hreachable hopen hfirst (hnot ⟨1⟩)
  rw [hlist] at hreach hastray
  refine ⟨s, hs, hopen, hheld, hfirst, hsecond, ?_, ?_⟩
  · apply Classical.byContradiction
    intro hfine
    obtain ⟨p, hp, howns⟩ := hastray.mpr hfine
    rw [List.mem_singleton.mp hp, hlost] at howns
    cases howns
  · exact hreach.mp ⟨_, List.mem_singleton_self _, hfound⟩

/-- The link is removed, and the removal is confirmed. -/
def unlinking : List Move :=
  .begin (.remove ⟨[0x6C]⟩ .arriving) :: List.replicate 4 (.call 2) ++
    List.replicate 3 .reader ++ [.call 2]

/-- Every path that was registered is removed, nothing is under way, and a watch is left. -/
theorem live_out_of_reach : ∃ s : Interplay,
    (start .default looped 16).run (relinking ++ unlinking) = some s ∧
      s.watcher.ensureOpen.isOk = true ∧
      s.calls.map Call.request = [.add ⟨[0x6C]⟩ (.new .write),
        .add ⟨[0x6C]⟩ (WatchOptions.new .chmod).withoutFollowing, .remove ⟨[0x6C]⟩] ∧
      s.allReturned = true ∧ s.pending = [] ∧ s.notifier.isLive ⟨1⟩ = true ∧
      s.table.resolve? ⟨1⟩ = none ∧ s.watcher.watchList = [] := by
  have hrun : ((start .default looped 16).run (relinking ++ unlinking)).map (fun s =>
      (s.watcher.ensureOpen.isOk, s.calls.map Call.request, s.allReturned, s.pending,
        s.notifier.isLive ⟨1⟩, s.table.resolve? ⟨1⟩, s.watcher.watchList))
      = some (true, [.add ⟨[0x6C]⟩ (.new .write),
        .add ⟨[0x6C]⟩ (WatchOptions.new .chmod).withoutFollowing, .remove ⟨[0x6C]⟩],
        true, [], true, none, []) := by cbv
  obtain ⟨s, hs, hvalues⟩ := Option.map_eq_some_iff.mp hrun
  simp only [Prod.mk.injEq] at hvalues
  exact ⟨s, hs, hvalues⟩

end Interplay

end FileWatch
