import Mathlib
import FileWatch.Proofs.Interplay.Asking

/-!
# Nothing requested is left unsubscribed

The table remembers what was asked for under a path, and the kernel reports what the watch of a thing
was asked for.  Whether the kernel is to widen a watch or to replace it is decided from the path, while
the kernel keeps its watches by thing.  So there is one way to narrow a watch: a path that is new leads
to a thing that is watched under another path.  The other path then leaves the table, in the step in
which the new one comes in; and until then the handle is held by the registration that has it
(`Subscribed.entries`).
-/

namespace FileWatch

/-- The watch of a handle, if it is live, reports what some flags ask for. -/
def Notifier.Heeds (n : Notifier) (h : Handle) (flags : Mask) : Prop :=
  ∀ v ∈ n.watches, v.handle = h → v.mask.Covers (flags &&& Mask.happenings)

namespace Notifier

variable {n n' : Notifier} {g h : Handle} {flags : Mask} {inode : Inode}

theorem Heeds.mono (heeds : n.Heeds h flags) (fewer : n'.watches ⊆ n.watches) :
    n'.Heeds h flags := fun v hv => heeds v (fewer hv)

/-- Whoever is granted a watch is heard. -/
theorem heeds_grant (sound : n.Sound) (hok : (n.grant inode flags).1 = .ok h) :
    (n.grant inode flags).2.Heeds h flags := by
  intro v hv hh
  rcases mem_watches_grant sound hok hv with ⟨-, hne⟩ | ⟨-, hmask | ⟨u, -, -, hmask⟩⟩
  · exact absurd hh hne
  · rw [hmask]
    exact .refl _
  · rw [hmask]
    exact Mask.covers_or_right _ _

/-- Nobody else is touched. -/
theorem Heeds.grant {wanted : Mask} (heeds : n.Heeds g wanted) (sound : n.Sound)
    (hok : (n.grant inode flags).1 = .ok h) (hne : g ≠ h) :
    (n.grant inode flags).2.Heeds g wanted := by
  intro v hv hg
  rcases mem_watches_grant sound hok hv with ⟨hold, -⟩ | ⟨hh, -⟩
  · exact heeds v hold hg
  · exact absurd (hg.symm.trans hh) hne

end Notifier

namespace Interplay

variable {s t u : Interplay} {m : Move} {i : Nat} {p q : Path} {o : WatchOptions}
  {wanted : Mask} {h : Handle} {w : Watch}

/-- Every registration under way and every entry is heard by the kernel, but for an entry whose handle
a registration holds. -/
structure Subscribed (s : Interplay) : Prop where
  told : ∀ {i : Nat} {p o wanted h},
    s.calls[i]? = some (.add p o (.inside (.told wanted (.ok h)))) → s.notifier.Heeds h wanted
  entries : ∀ {p w}, s.table.entry? p = some w → w.handle ∈ s.held ∨ s.notifier.Heeds w.handle w.flags

/-- One registration at most holds a handle. -/
theorem Reachable.eq_of_mem_held (hs : Reachable s)
    (stage : s.calls[i]? = some (.add p o (.inside (.told wanted (.ok h))))) {g : Handle}
    (held : g ∈ s.held) : g = h := by
  obtain ⟨j, q, o', wanted', hj⟩ := exists_stage_of_mem_held held
  obtain rfl := hs.alone hj stage rfl rfl
  cases hj.symm.trans stage
  rfl

theorem Subscribed.told_of_fire (hs : Reachable s) (subscribed : s.Subscribed)
    (hfire : s.fire m = some t)
    (stage : t.calls[i]? = some (.add p o (.inside (.told wanted (.ok h))))) :
    t.notifier.Heeds h wanted := by
  rcases granted_of_fire hfire stage with hsame | ⟨known, inode, -, granted⟩
  · have others := others_of_holdsTable hfire hsame stage rfl
    rcases watches_of_effect (effect_of_fire hs.legible hfire).1 with
      hfewer | ⟨j, _, _, _, _, _, _, mover, granted⟩
    · exact (subscribed.told hsame).mono hfewer
    · obtain rfl := hs.alone granted.before hsame rfl rfl
      subst mover
      exact absurd rfl others
  · rw [granted.notifier]
    intro v hv hh
    have hcovers := Notifier.heeds_grant hs.ordered.sound granted.granted v hv hh
    exact hcovers.trans ((covers_armed wanted known).and _)

/-- A registration that stores its handle puts an entry into the table that is heard, and takes out the
one that may not be. -/
theorem Subscribed.entries_of_store (hs : Reachable s) (subscribed : s.Subscribed)
    (stage : s.calls[i]? = some (.add q o (.inside (.told wanted (.ok h)))))
    (hfire : s.fire (.call i) = some t) (entry : t.table.entry? p = some w) :
    t.notifier.Heeds w.handle w.flags := by
  have hstored := stores_of_told stage hfire
  subst hstored
  have hinsert : WatchTable.entry? (s.table.insert q.normalize ⟨h, wanted⟩) p = some w := entry
  rw [hs.ordered.paired.entry?_insert] at hinsert
  by_cases hq : (q.normalize == p) = true
  · rw [if_pos hq, Option.some.injEq] at hinsert
    subst hinsert
    exact subscribed.told stage
  · rw [if_neg hq, Option.filter_eq_some_iff, decide_eq_true_eq] at hinsert
    obtain ⟨hbefore, hne⟩ := hinsert
    rcases subscribed.entries hbefore with held | heeds
    · exact absurd (hs.eq_of_mem_held stage held) hne
    · exact heeds

theorem Subscribed.of_fire (hs : Reachable s) (subscribed : s.Subscribed)
    (hfire : s.fire m = some t) : t.Subscribed where
  told := fun stage => subscribed.told_of_fire hs hfire stage
  entries := by
    intro p w entry
    have heffect := (effect_of_fire hs.legible hfire).1
    rcases stored_or_kept hs.ordered hfire entry with
      hbefore | ⟨i, q, o, wanted, h, rfl, stage, -, -⟩
    · rcases subscribed.entries hbefore with held | heeds
      · -- Who holds the handle holds it still, or has stored it.
        obtain ⟨i, q, o, wanted, stage⟩ := exists_stage_of_mem_held held
        rcases holds_or_stores hs.legible stage hfire with hstays | ⟨rfl, -⟩
        · exact .inl (mem_held hstays)
        · exact .inr (subscribed.entries_of_store hs stage hfire entry)
      · rcases watches_of_effect heffect with hfewer | ⟨i, _, _, _, _, _, h, -, granted⟩
        · exact .inr (heeds.mono hfewer)
        · by_cases hh : w.handle = h
          · exact .inl (hh ▸ mem_held granted.after)
          · rw [granted.notifier]
            exact .inr (heeds.grant hs.ordered.sound granted.granted hh)
    · exact .inr (subscribed.entries_of_store hs stage hfire entry)

theorem Reachable.subscribed (hs : Reachable s) : s.Subscribed := by
  obtain ⟨settings, tree, limit, hstart⟩ := hs
  induction hstart with
  | refl => exact ⟨nofun, nofun⟩
  | step before _ fired ih => exact ih.of_fire ⟨settings, tree, limit, before⟩ fired

/-! ## What an entry remembers -/

/-- What a registration is about to store has what is stored under its path. -/
theorem covers_of_demand {table : WatchTable} {flags : Mask} (demand : (table.demand p flags).1 = wanted) :
    wanted.Covers flags ∧ ∀ w, table.entry? p = some w → wanted.Covers w.flags := by
  unfold WatchTable.demand at demand
  cases hentry : table.entry? p with
  | none =>
    rw [hentry] at demand
    subst demand
    exact ⟨.refl _, nofun⟩
  | some v =>
    rw [hentry] at demand
    subst demand
    refine ⟨Mask.covers_or_right _ _, ?_⟩
    rintro w ⟨⟩
    exact Mask.covers_or_left _ _

/-- **Flags only grow** while a path stays in the table. -/
theorem flags_of_fire (hs : Reachable s) (hfire : s.fire m = some t) {v : Watch}
    (before : s.table.entry? p = some v) (after : t.table.entry? p = some w) :
    w.flags.Covers v.flags := by
  rcases stored_or_kept hs.ordered hfire after with
    hsame | ⟨i, q, o, wanted, h, -, stage, hq, rfl⟩
  · rw [before, Option.some.injEq] at hsame
    rw [hsame]
    exact .refl _
  · have hentry : s.table.entry? q.normalize = some v :=
      (Dict.find?_congr hq).trans before
    exact (covers_of_demand (hs.asks.told stage)).2 v hentry

/-- Every move that finds a path in the table. -/
def Listed (p : Path) (s : Interplay) (_ : Move) : Prop := (s.table.entry? p).isSome = true

theorem flags_of_leads (hs : Reachable s) (listed : Leads (Listed p) s t) {v : Watch}
    (before : s.table.entry? p = some v) (after : t.table.entry? p = some w) :
    w.flags.Covers v.flags := by
  induction listed generalizing w with
  | refl =>
    rw [before, Option.some.injEq] at after
    rw [after]
    exact .refl _
  | step earlier present fired ih =>
    obtain ⟨x, hx⟩ := Option.isSome_iff_exists.mp present
    exact (flags_of_fire (hs.leads earlier) fired hx after).trans (ih hx)

/-- A registration returns with success where it has stored what it was told, and nowhere else. -/
theorem told_of_success {stage : Adding}
    (before : s.calls[i]? = some (.add p o (.inside stage))) (hfire : s.fire (.call i) = some t)
    (after : t.calls[i]? = some (.add p o (.returned (.ok ())))) :
    ∃ wanted h, stage = .told wanted (.ok h) := by
  obtain ⟨c, u, step, rfl⟩ := callStep_of_fire before rfl hfire
  cases (step.after before).symm.trans after
  cases step with
  | addKnocks knock => cases knock
  | addStores => exact ⟨_, _, rfl⟩

/-- **Nothing requested is left unsubscribed.**  While nobody holds the table, the kernel reports for
every entry whose watch is live all that the entry asks for; and an entry asks for all that was asked
for by the registrations of its path that have succeeded since the path was last missing. -/
theorem nothing_unsubscribed (hs : Reachable s) (free : s.tableFree = true)
    (entry : s.table.entry? p = some w) :
    (∀ v ∈ s.notifier.watches, v.handle = w.handle → v.mask.Covers (w.flags &&& Mask.happenings)) ∧
      ∀ {u v : Interplay} {i : Nat} {q : Path} {o : WatchOptions} {stage : Adding}, Reachable u →
        u.calls[i]? = some (.add q o (.inside stage)) → u.fire (.call i) = some v →
        v.calls[i]? = some (.add q o (.returned (.ok ()))) → (q.normalize == p) = true →
        Leads (Listed p) v s → w.flags.Covers (Mask.request o.requested) := by
  constructor
  · rcases hs.subscribed.entries entry with held | heeds
    · rw [held_of_tableFree free] at held
      cases held
    · exact heeds
  · intro u v i q o stage hu before hfire after hq listed
    obtain ⟨wanted, h, rfl⟩ := told_of_success before hfire after
    have hv : Reachable v := hu.leads (.step .refl trivial hfire : Leads Anything u v)
    have hstored : v.table.entry? p = some ⟨h, wanted⟩ := by
      have hinsert := stores_of_told before hfire
      subst hinsert
      show WatchTable.entry? (u.table.insert q.normalize ⟨h, wanted⟩) p = _
      rw [hu.ordered.paired.entry?_insert, if_pos hq]
    have hwanted := (covers_of_demand (hu.asks.told before)).1
    have hasked : o.flags.Covers (Mask.request o.requested) := Mask.covers_or_left _ _
    exact ((flags_of_leads hv listed hstored entry).trans hwanted).trans hasked

/-- The directory that relative paths start from, by way of the one above it. -/
def roundabout : Path := ⟨[dot, dot, slash, 0x64]⟩

/-- The directory is registered under its short name, and under the other one up to where the kernel
has answered: its watch is narrowed. -/
def narrowing : List Move :=
  .begin (.add ⟨[dot]⟩ (.new .remove) .arriving) :: List.replicate 5 (.call 0) ++
    .begin (.add roundabout (.new .write) .arriving) :: List.replicate 4 (.call 1)

/-- It is registered under the other name again. -/
def widening : List Move :=
  .begin (.add roundabout (.new .closeWrite) .arriving) :: List.replicate 5 (.call 2)

theorem nothing_unsubscribed_roundabout : ∃ u v s : Interplay,
    (start .default .fresh 16).run narrowing = some u ∧ u.fire (.call 1) = some v ∧
      Leads (Listed roundabout) v s ∧ s.tableFree = true ∧
      u.table.entry? ⟨[dot]⟩ = some ⟨⟨1⟩, Mask.request .remove⟩ ∧
      s.table.entry? roundabout = some ⟨⟨1⟩, 0xA⟩ ∧ s.notifier.isLive ⟨1⟩ = true ∧
      (∀ w ∈ s.notifier.watches, w.handle = ⟨1⟩ → w.mask.Covers (0xA &&& Mask.happenings)) ∧
      Mask.Covers 0xA (Mask.request .write) := by
  have hnarrowed : ((start .default .fresh 16).run narrowing).map (fun u =>
      (u.calls[1]?, u.table.entry? ⟨[dot]⟩))
      = some (some (.add roundabout (.new .write) (.inside (.told 2 (.ok ⟨1⟩)))),
          some ⟨⟨1⟩, Mask.request .remove⟩) := by cbv
  obtain ⟨u, hu, hvalues⟩ := Option.map_eq_some_iff.mp hnarrowed
  obtain ⟨hbefore, hother⟩ := Prod.mk.inj hvalues
  have hstored : (((start .default .fresh 16).run narrowing).bind fun u => u.fire (.call 1)).map
      (fun v => v.calls[1]?)
      = some (some (.add roundabout (.new .write) (.returned (.ok ())))) := by cbv
  rw [hu, Option.bind_some] at hstored
  obtain ⟨v, hv, hafter⟩ := Option.map_eq_some_iff.mp hstored
  have hwidened : ((((start .default .fresh 16).run narrowing).bind fun u => u.fire (.call 1)).bind
      fun v => v.runWhile (fun s _ => (s.table.entry? roundabout).isSome) widening).map
      (fun s => (s.tableFree, s.table.entry? roundabout, s.notifier.isLive ⟨1⟩))
      = some (true, some ⟨⟨1⟩, 0xA⟩, true) := by cbv
  rw [hu, Option.bind_some, hv, Option.bind_some] at hwidened
  obtain ⟨s, hs, hvalues⟩ := Option.map_eq_some_iff.mp hwidened
  simp only [Prod.mk.injEq] at hvalues
  obtain ⟨hfree, hentry, hlive⟩ := hvalues
  have hreachable : Reachable u := ⟨_, _, _, leads_of_run hu⟩
  have hlisted : Leads (Listed roundabout) v s := leads_of_runWhile (fun _ _ => id) hs
  have hlast : Reachable s :=
    (hreachable.leads (.step .refl trivial hv : Leads Anything u v)).leads hlisted
  obtain ⟨hmask, hflags⟩ := nothing_unsubscribed hlast hfree hentry
  have hname : (roundabout.normalize == roundabout) = true := by cbv
  have hrequested : (WatchOptions.new .write).requested = .write := by decide
  have hcovers := hflags hreachable hbefore hv hafter hname hlisted
  rw [hrequested] at hcovers
  exact ⟨u, v, s, hu, hv, hlisted, hfree, hother, hentry, hlive, hmask, hcovers⟩

end Interplay

end FileWatch
