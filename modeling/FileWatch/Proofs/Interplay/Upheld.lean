import Mathlib
import FileWatch.Proofs.Interplay.Origins

/-!
# What upholds a registration

A registration is granted a handle, stores it under its path and returns.  Its watch should then stand
until somebody removes the path, the watched thing moves or dies, its handle is registered under
another path, or the watcher ends; every other move is `Harmless`.

Between the grant and the return the table has not heard of the handle, and later registrations of
the same path may replace it.  So what is kept is about every handle that the path relies on (`Serves`):
that it is live, and that nothing under way would have it dropped (`Firm`).  A handle that is granted for
the first time is such a one, since nobody can have to do with it before (`firm_of_grant`).  For one that
was live already it has to be asked for: a record that was queued, or a removal that has looked the handle
up, goes by the handle alone, and drops the watch whoever has it by then (`registration_not_upheld`).
-/

namespace FileWatch

namespace Interplay

variable {s t u : Interplay} {m : Move} {i : Nat} {p : Path} {o : WatchOptions} {wanted : Mask}
  {g h : Handle}

/-! ## Who may end a registration -/

/-- Nothing under way would have the watch of a handle dropped: no record that waits tells the reader
that the watched thing has moved, and no removal of another path has found the handle. -/
structure Firm (p : Path) (s : Interplay) (g : Handle) : Prop where
  stays : ∀ r ∈ s.pending, r.handle = g → (r.mask.has Mask.moveSelf && r.name.isNone) = false
  sought : ∀ (j : Nat) q, s.calls[j]? = some (.remove q (.inside (.found g))) →
    (q.normalize == p.normalize) = true

/-- The handles that a path relies on once a registration of it was granted: what any registration of it
was granted, and what the table has for it once that registration has returned. -/
inductive Serves (i : Nat) (p : Path) (s : Interplay) (g : Handle) : Prop
  | granted {j : Nat} {q : Path} {o : WatchOptions} {wanted : Mask}
    (stage : s.calls[j]? = some (.add q o (.inside (.told wanted (.ok g)))))
    (same : (q.normalize == p.normalize) = true)
  | registered {c : Call} (stage : s.calls[i]? = some c) (returned : c.hasReturned = true)
    (known : s.table.handleOf? p.normalize = some g)

/-- Every move but those that may end the registration of a path. -/
structure Harmless (i : Nat) (p : Path) (s : Interplay) (m : Move) : Prop where
  /-- No removal of the path that was let in makes a step. -/
  removals : ∀ j q stage, m.caller? = some j → s.calls[j]? = some (.remove q (.inside stage)) →
    (q.normalize == p.normalize) = false
  /-- No other path is registered under the handle of this one. -/
  aliases : ∀ j q o wanted g, m = .call j →
    s.calls[j]? = some (.add q o (.inside (.told wanted (.ok g)))) → s.Serves i p g →
    (q.normalize == p.normalize) = true
  /-- The watched thing is not moved. -/
  stays : ∀ r, m = .queue r → s.Serves i p r.handle → (r.mask.has Mask.moveSelf && r.name.isNone) = false
  /-- It is not deleted or unmounted. -/
  lives : ∀ g, m = .death g → ¬ s.Serves i p g
  /-- The path is not registered again under a handle that something older has to do with. -/
  renewed : ∀ j q o wanted known g t, m = .call j →
    s.calls[j]? = some (.add q o (.inside (.asking wanted known))) →
    (q.normalize == p.normalize) = true → s.fire m = some t →
    t.calls[j]? = some (.add q o (.inside (.told wanted (.ok g)))) →
    s.notifier.isLive g = true → s.Firm p g

theorem live_of_harmless (legible : s.Legible) (harmless : Harmless i p s m)
    (hfire : s.fire m = some t) (isOpen : t.descriptorOpen = true) (serves : s.Serves i p g)
    (live : s.notifier.isLive g = true) (firm : s.Firm p g) : t.notifier.isLive g = true := by
  rcases live_or_dropped (effect_of_fire legible hfire).1 live with
    hlive | hclosed | ⟨-, hm | ⟨j, q, hm, hfound⟩ | ⟨r, hr, hh, hmoved⟩⟩
  · exact hlive
  · rw [isOpen] at hclosed
    cases hclosed
  · exact absurd serves (harmless.lives g hm)
  · have hnot := harmless.removals j q _ (congrArg Move.caller? hm) hfound
    rw [firm.sought j q hfound] at hnot
    cases hnot
  · rw [firm.stays r hr hh] at hmoved
    cases hmoved

theorem Firm.of_fire (hs : Reachable s) (harmless : Harmless i p s m) (hfire : s.fire m = some t)
    (serves : s.Serves i p g) (firm : s.Firm p g) : t.Firm p g := by
  have ordered := hs.ordered
  constructor
  · intro r hr hh
    rcases pending_of_effect (effect_of_fire hs.legible hfire).1 with
      hsub | ⟨q, x, hlive, hx, hcame, -, -, hadd⟩
    · exact firm.stays r (hsub.subset hr) hh
    · rw [hadd, List.mem_append, List.mem_singleton] at hr
      rcases hr with hr | rfl
      · exact firm.stays r hr hh
      · rcases hx with rfl | rfl
        · rcases hcame with hm | hlast
          · exact harmless.stays r hm (hh ▸ serves)
          · rw [hlast]
            rfl
        · rfl
  · intro j q stage
    rcases found_of_fire hfire stage with hsame | ⟨free, hhandle⟩
    · exact firm.sought j q hsame
    · -- It was just looked up, so nobody is between grant and return, and the table is one to one.
      cases serves with
      | granted hheld _ =>
        have := not_holdsTable free hheld
        cases this
      | registered _ _ hknown =>
        obtain ⟨v, hv, hvg⟩ := WatchTable.handleOf?_eq_some_iff.mp hhandle
        obtain ⟨w, hw, hwg⟩ := WatchTable.handleOf?_eq_some_iff.mp hknown
        exact ordered.paired.beq_of_handle_eq hv hw (hvg.trans hwg.symm)

/-- **Nothing older has to do with a handle that is granted**, unless it was live before: such a handle
is a new one. -/
theorem firm_of_grant (hs : Reachable s) (hfire : s.fire m = some t) {j : Nat} {q : Path} {known : Bool}
    {inode : Inode} {flags : Mask}
    (asking : s.calls[j]? = some (.add q o (.inside (.asking wanted known))))
    (isOpen : s.descriptorOpen = true) (granted : (s.notifier.grant inode flags).1 = .ok g)
    (core : t.core = { s.core with notifier := (s.notifier.grant inode flags).2 })
    (older : s.notifier.isLive g = true → s.Firm p g) : t.notifier.isLive g = true ∧ t.Firm p g := by
  have hknown := hs.known isOpen
  have hnotifier : t.notifier = (s.notifier.grant inode flags).2 := congrArg Core.notifier core
  have hpending : t.pending = s.pending := by
    have htaken : t.taken = s.taken := congrArg Core.taken core
    rw [pending, htaken, hnotifier, Notifier.queue_grant granted]
    rfl
  have hnew : s.notifier.isLive g = true ∨ ¬ s.notifier.Issued g :=
    Notifier.isLive_or_not_issued hs.ordered.sound granted
  refine ⟨?_, ?_, ?_⟩
  · rw [hnotifier, Notifier.isLive_grant granted]
    simp
  · intro r hr hh
    rw [hpending] at hr
    rcases hnew with live | hnew
    · exact (older live).stays r hr hh
    · rcases hknown.pending r hr with rfl | hissued
      · rfl
      · exact absurd (hh ▸ hissued) hnew
  · intro k q' stage
    rcases found_of_fire hfire stage with hsame | ⟨free, -⟩
    · rcases hnew with live | hnew
      · exact (older live).sought k q' hsame
      · exact absurd (hknown.calls hsame rfl) hnew
    · have := not_holdsTable free asking
      cases this

/-! ## A registration stands -/

/-- A handle is live, and nothing under way would have its watch dropped. -/
def Safe (p : Path) (s : Interplay) (g : Handle) : Prop :=
  s.notifier.isLive g = true ∧ s.Firm p g

/-- A registration was granted a handle, or has stored one; and what the path relies on is safe. -/
structure Upheld (i : Nat) (p : Path) (o : WatchOptions) (s : Interplay) : Prop where
  stage : (∃ wanted h, s.calls[i]? = some (.add p o (.inside (.told wanted (.ok h))))) ∨
    s.calls[i]? = some (.add p o (.returned (.ok ()))) ∧
      ∃ g, s.table.handleOf? p.normalize = some g
  safe : ∀ g, s.Serves i p g → s.Safe p g

/-- The table keeps a handle for the path: the one it had, or one that the path relied on. -/
theorem known_of_fire (hs : Reachable s) (harmless : Harmless i p s m) (hfire : s.fire m = some t)
    (isOpen : t.descriptorOpen = true) (safe : ∀ g, s.Serves i p g → s.Safe p g)
    (serves : ∀ g, s.table.handleOf? p.normalize = some g → s.Serves i p g)
    (known : s.table.handleOf? p.normalize = some g) :
    ∃ g, t.table.handleOf? p.normalize = some g ∧ s.Serves i p g := by
  have ordered := hs.ordered
  have hserves := serves g known
  rcases altered_of_fire hfire with hsame | alters
  · exact ⟨g, by rw [hsame, known], hserves⟩
  have hremoved : ∀ {h}, t.table = (s.table.removeHandle h).2 → g ≠ h →
      ∃ g, t.table.handleOf? p.normalize = some g ∧ s.Serves i p g := by
    intro h htable hne
    refine ⟨g, ?_, hserves⟩
    rw [htable, ordered.paired.removeHandle_eq, WatchTable.handleOf?_without, known]
    simpa using hne
  cases alters with
  | purge r _ hand last table =>
    refine hremoved table ?_
    rintro rfl
    exact (ordered.spent r (mem_pending hand rfl) last).ne_of_isLive (safe _ hserves).1 rfl
  | force j q h mover hwaiting howns table =>
    refine hremoved table ?_
    rintro rfl
    have hnot := harmless.removals j q _ (congrArg Move.caller? mover) hwaiting
    obtain ⟨v, hv, hvg⟩ := WatchTable.handleOf?_eq_some_iff.mp ((ordered.paired _ _).mp howns)
    obtain ⟨w, hw, hwg⟩ := WatchTable.handleOf?_eq_some_iff.mp known
    rw [ordered.paired.beq_of_handle_eq hv hw (hvg.trans hwg.symm)] at hnot
    cases hnot
  | store j q o wanted h mover stage table =>
    rw [table, ordered.paired.handleOf?_insert]
    by_cases hq : (q.normalize == p.normalize) = true
    · rw [if_pos hq]
      exact ⟨h, rfl, .granted stage hq⟩
    · rw [if_neg hq, known]
      have hne : g ≠ h := by
        rintro rfl
        exact hq (harmless.aliases j q o wanted g mover stage hserves)
      exact ⟨g, by simpa using hne, hserves⟩
  | wipe by_whom =>
    have closed := (onward_of_effect (effect_of_fire hs.legible hfire).1).not_open
      (hs.ending.closed_of_wipe by_whom)
    rw [isOpen] at closed
    cases closed

theorem Safe.of_fire (hs : Reachable s) (harmless : Harmless i p s m) (hfire : s.fire m = some t)
    (isOpen : t.descriptorOpen = true) (serves : s.Serves i p g) (safe : s.Safe p g) : t.Safe p g :=
  ⟨live_of_harmless hs.legible harmless hfire isOpen serves safe.1 safe.2,
    safe.2.of_fire hs harmless hfire serves⟩

/-- What a registration of the path is granted is safe. -/
theorem safe_of_granted (hs : Reachable s) (harmless : Harmless i p s m) (hfire : s.fire m = some t)
    (isOpen : t.descriptorOpen = true) (safe : ∀ g, s.Serves i p g → s.Safe p g) {j : Nat} {q : Path}
    (stage : t.calls[j]? = some (.add q o (.inside (.told wanted (.ok g)))))
    (same : (q.normalize == p.normalize) = true) : t.Safe p g := by
  rcases told_of_fire hfire stage with
    hheld | ⟨known, inode, flags, mover, asking, hopen, granted, core⟩
  · have serves : s.Serves i p g := .granted hheld same
    exact (safe g serves).of_fire hs harmless hfire isOpen serves
  · exact firm_of_grant hs hfire asking hopen granted core
      (harmless.renewed j q o wanted known g t mover asking same hfire stage)

/-- **A registration stands** after every harmless move, while the descriptor is open. -/
theorem Upheld.of_fire (hs : Reachable s) (upheld : s.Upheld i p o) (harmless : Harmless i p s m)
    (hfire : s.fire m = some t) (isOpen : t.descriptorOpen = true) : t.Upheld i p o := by
  have htouches := (effect_of_fire hs.legible hfire).2
  -- What the table has afterwards is something that the path relied on before.
  have hsafe : (∀ g c, t.calls[i]? = some c → c.hasReturned = true →
      t.table.handleOf? p.normalize = some g → s.Serves i p g) → ∀ g, t.Serves i p g → t.Safe p g := by
    intro hbefore g serves
    cases serves with
    | granted stage same => exact safe_of_granted hs harmless hfire isOpen upheld.safe stage same
    | registered stage returned known =>
      have hserves := hbefore g _ stage returned known
      exact (upheld.safe g hserves).of_fire hs harmless hfire isOpen hserves
  rcases upheld.stage with ⟨wanted, h, hheld⟩ | ⟨hreturned, g, hknown⟩
  · have hserves : s.Serves i p h := .granted hheld BEq.rfl
    by_cases hm : m.caller? = some i
    · obtain ⟨c, u, step, rfl⟩ := callStep_of_fire hheld hm hfire
      have after := step.after hheld
      cases step with
      | addKnocks knock => cases knock
      | addStores =>
        have hhandle : (s.table.insert p.normalize ⟨h, wanted⟩).handleOf? p.normalize = some h := by
          rw [hs.ordered.paired.handleOf?_insert, if_pos BEq.rfl]
        refine ⟨.inr ⟨after, h, hhandle⟩, hsafe fun g c _ _ hg => ?_⟩
        cases hhandle.symm.trans hg
        exact hserves
    · have hstay := call_stays htouches hheld hm
      refine ⟨.inl ⟨wanted, h, hstay⟩, hsafe fun g c hc hreturned _ => ?_⟩
      rw [hstay, Option.some.injEq] at hc
      subst hc
      cases hreturned
  · have hstay := call_stays_returned hs.legible hfire hreturned rfl
    obtain ⟨g', hg', hserves⟩ := known_of_fire hs harmless hfire isOpen upheld.safe
      (fun g hg => .registered hreturned rfl hg) hknown
    refine ⟨.inr ⟨hstay, g', hg'⟩, hsafe fun g c _ _ hg => ?_⟩
    rw [hg', Option.some.injEq] at hg
    exact hg ▸ hserves

theorem upheld_of_leads (hs : Reachable s) (upheld : s.Upheld i p o)
    (meanwhile : Leads (Harmless i p) s t) (isOpen : t.descriptorOpen = true) : t.Upheld i p o := by
  induction meanwhile with
  | refl => exact upheld
  | step before harmless fired ih =>
    have hv := hs.leads before
    have honward := onward_of_effect (effect_of_fire hv.legible fired).1
    exact (ih (honward.descriptorOpen isOpen)).of_fire hv harmless fired isOpen

theorem upheld_of_grant (hs : Reachable s) {known : Bool}
    (asking : s.calls[i]? = some (.add p o (.inside (.asking wanted known))))
    (hfire : s.fire (.call i) = some t)
    (granted : t.calls[i]? = some (.add p o (.inside (.told wanted (.ok h)))))
    (older : s.notifier.isLive h = true → s.Firm p h) : t.Upheld i p o := by
  refine ⟨.inl ⟨wanted, h, granted⟩, fun g serves => ?_⟩
  cases serves with
  | registered stage returned _ =>
    rw [granted, Option.some.injEq] at stage
    subst stage
    cases returned
  | @granted j q o' wanted' stage same =>
    rcases told_of_fire hfire stage with
      hheld | ⟨known', inode, flags, mover, asking', hopen, hgrant, core⟩
    · -- Nobody else held the table.
      obtain rfl := hs.alone hheld asking rfl rfl
      cases asking.symm.trans hheld
    · cases mover
      rw [granted, Option.some.injEq] at stage
      cases stage
      exact firm_of_grant hs hfire asking' hopen hgrant core older

/-! ## The promise -/

/-- **A registration is upheld.**  The kernel grants a registration a handle, and if the handle was live
before, nothing older has to do with it.  Then, whatever the reader and other calls do: when the
registration has returned, it was a success, and the table has a live handle for the path.  It stays so
until a removal of the path, a registration of another path that is granted the same handle, the end or
a move of the watched thing, or the end of the watcher. -/
theorem registration_upheld {known : Bool} {c : Call} (reachable : Reachable s)
    (asking : s.calls[i]? = some (.add p o (.inside (.asking wanted known))))
    (asks : s.fire (.call i) = some t)
    (granted : t.calls[i]? = some (.add p o (.inside (.told wanted (.ok h)))))
    (older : s.notifier.isLive h = true → s.Firm p h)
    (meanwhile : Leads (Harmless i p) t u) (isOpen : u.descriptorOpen = true)
    (stage : u.calls[i]? = some c) (returned : c.hasReturned = true) :
    c = .add p o (.returned (.ok ())) ∧
      ∃ w, u.table.entry? p.normalize = some w ∧ u.notifier.isLive w.handle = true := by
  have ht : Reachable t := reachable.leads (.step .refl trivial asks : Leads Anything s t)
  have upheld := upheld_of_leads ht (upheld_of_grant reachable asking asks granted older) meanwhile
    isOpen
  rcases upheld.stage with ⟨wanted', h', hheld⟩ | ⟨hreturned, g, hknown⟩
  · rw [hheld, Option.some.injEq] at stage
    subst stage
    cases returned
  · rw [hreturned, Option.some.injEq] at stage
    obtain ⟨w, hw, rfl⟩ := WatchTable.handleOf?_eq_some_iff.mp hknown
    exact ⟨stage.symm, w, hw, (upheld.safe _ (.registered hreturned rfl hknown)).1⟩

theorem harmless_of_caller?_none (mover : m.caller? = none) (dies : ∀ g, m ≠ .death g)
    (stays : ∀ r, m = .queue r → (r.mask.has Mask.moveSelf && r.name.isNone) = false) :
    Harmless i p s m where
  removals := by
    intro j q stage hj
    rw [mover] at hj
    cases hj
  aliases := by
    intro j q o wanted g hj
    rw [hj] at mover
    cases mover
  stays := fun r hr _ => stays r hr
  lives := fun g hg => absurd hg (dies g)
  renewed := by
    intro j q o wanted known g t hj
    rw [hj] at mover
    cases mover

theorem harmless_of_told (stage : s.calls[i]? = some (.add p o (.inside (.told wanted (.ok h))))) :
    Harmless i p s (.call i) where
  removals := by
    intro j q stage' hj hremoval
    cases hj
    cases stage.symm.trans hremoval
  aliases := by
    intro j q o' wanted' g hj hstage _
    cases hj
    rw [stage, Option.some.injEq] at hstage
    cases hstage
    exact BEq.rfl
  stays := by
    intro r hr
    cases hr
  lives := by
    intro g hg
    cases hg
  renewed := by
    intro j q o' wanted' known g t hj hasking
    cases hj
    cases stage.symm.trans hasking

theorem leads_of_quietRun {moves : List Move} (hmoves : ∀ m ∈ moves, m = .reader ∨
      ∃ r, m = .queue r ∧ (r.mask.has Mask.moveSelf && r.name.isNone) = false)
    (hrun : s.run moves = some t) : Leads (Harmless i p) s t := by
  induction moves generalizing s with
  | nil =>
    cases hrun
    exact .refl
  | cons m rest ih =>
    obtain ⟨v, hfire, hrest⟩ := Option.bind_eq_some_iff.mp hrun
    have harmless : Harmless i p s m := by
      rcases hmoves m List.mem_cons_self with rfl | ⟨r, rfl, hstays⟩
      · apply harmless_of_caller?_none rfl
        · intro g hg
          cases hg
        · intro r hr
          cases hr
      · apply harmless_of_caller?_none rfl
        · intro g hg
          cases hg
        · intro r' hr
          cases hr
          exact hstays
    have hleads := ih (fun m' hm' => hmoves m' (List.mem_cons_of_mem _ hm')) hrest
    exact (Leads.step .refl harmless hfire : Leads (Harmless i p) s v).trans hleads

/-- The directory that relative paths start from is registered under its full name. -/
def fullName : Path := ⟨[0x2F, 0x77, 0x2F, 0x64]⟩

def registered : List Move :=
  .begin (.add fullName (.new .rename) .arriving) :: List.replicate 5 (.call 0)

/-- It is registered under its short name, up to where the kernel is asked. -/
def renamedBy (i : Nat) : List Move :=
  .begin (.add ⟨[dot]⟩ (.new .rename) .arriving) :: List.replicate 3 (.call i)

/-- A file in it is renamed, and the reader reads of it. -/
def stirring : List Move := .queue ⟨⟨1⟩, Mask.movedFrom, 7, some [0x61]⟩ :: List.replicate 3 .reader

/-- The handle was live before, and nothing older has to do with it. -/
theorem registration_upheld_renamed : ∃ s t u : Interplay,
    (start .default .fresh 16).run (registered ++ renamedBy 1) = some s ∧
    s.notifier.isLive ⟨1⟩ = true ∧ s.Firm ⟨[dot]⟩ ⟨1⟩ ∧ s.fire (.call 1) = some t ∧
    Leads (Harmless 1 ⟨[dot]⟩) t u ∧ u.reading.record?.isSome = true ∧
    ∃ w, u.table.entry? (Path.normalize ⟨[dot]⟩) = some w ∧ u.notifier.isLive w.handle = true := by
  have hasking : ((start .default .fresh 16).run (registered ++ renamedBy 1)).map (fun s =>
      (s.calls, s.pending, s.notifier.isLive ⟨1⟩))
      = some ([.add fullName (.new .rename) (.returned (.ok ())),
          .add ⟨[dot]⟩ (.new .rename) (.inside (.asking 2240 false))], [], true) := by cbv
  obtain ⟨s, hs, hvalues⟩ := Option.map_eq_some_iff.mp hasking
  simp only [Prod.mk.injEq] at hvalues
  obtain ⟨hcalls, hpending, hlive⟩ := hvalues
  have hfirm : s.Firm ⟨[dot]⟩ ⟨1⟩ := by
    constructor
    · intro r hr
      rw [hpending] at hr
      cases hr
    · intro j q hj
      rw [hcalls] at hj
      rcases j with _ | _ | j
      all_goals cases hj
  have htold : (((start .default .fresh 16).run (registered ++ renamedBy 1)).bind fun s =>
      s.fire (.call 1)).map (fun t => t.calls[1]?)
      = some (some (.add ⟨[dot]⟩ (.new .rename) (.inside (.told 2240 (.ok ⟨1⟩))))) := by cbv
  rw [hs, Option.bind_some] at htold
  obtain ⟨t, ht, hstage⟩ := Option.map_eq_some_iff.mp htold
  have hstored : ((((start .default .fresh 16).run (registered ++ renamedBy 1)).bind fun s =>
      s.fire (.call 1)).bind fun t => t.fire (.call 1)).isSome = true := by cbv
  rw [hs, Option.bind_some, ht, Option.bind_some, Option.isSome_iff_exists] at hstored
  obtain ⟨v, hv⟩ := hstored
  have hquiet : (((((start .default .fresh 16).run (registered ++ renamedBy 1)).bind fun s =>
      s.fire (.call 1)).bind fun t => t.fire (.call 1)).bind fun v => v.run stirring).map
      (fun u => (u.calls[1]?, u.descriptorOpen, u.reading.record?.isSome))
      = some (some (.add ⟨[dot]⟩ (.new .rename) (.returned (.ok ()))), true, true) := by cbv
  rw [hs, Option.bind_some, ht, Option.bind_some, hv, Option.bind_some] at hquiet
  obtain ⟨u, hu, hvalues⟩ := Option.map_eq_some_iff.mp hquiet
  simp only [Prod.mk.injEq] at hvalues
  obtain ⟨hreturned, hopen, hreading⟩ := hvalues
  have hmeanwhile : Leads (Harmless 1 ⟨[dot]⟩) t u := by
    refine (Leads.step .refl (harmless_of_told hstage) hv).trans (leads_of_quietRun ?_ hu)
    intro m hm
    rcases List.mem_cons.mp hm with rfl | hm
    · exact .inr ⟨_, rfl, by decide⟩
    · exact .inl (List.eq_of_mem_replicate hm)
  obtain ⟨-, hentry⟩ := registration_upheld ⟨_, _, _, leads_of_run hs⟩ (by rw [hcalls]; rfl) ht hstage
    (fun _ => hfirm) hmeanwhile hopen hreturned rfl
  exact ⟨s, t, u, hs, hlive, hfirm, ht, hmeanwhile, hreading, hentry⟩

/-- When it is registered under its short name, a record waits that says the directory has moved. -/
def movedBefore : List Move :=
  registered ++ .queue ⟨⟨1⟩, Mask.moveSelf, 0, none⟩ :: renamedBy 1 ++ [.call 1]

/-- When it is, a removal of its full name has found the handle. -/
def soughtBefore : List Move :=
  registered ++ .begin (.remove fullName .arriving) :: List.replicate 3 (.call 1) ++ renamedBy 2 ++
    [.call 2]

/-- **Where a registration is not upheld.**  Its handle was live before.  In the first run a record waits
that says the watched thing has moved; in the second a removal of the other name has found the handle.
The registration succeeds, and after it only the reader or that removal moves; and yet the watch is
dropped, and the path leaves the table. -/
theorem registration_not_upheld :
    (∃ s u : Interplay, (start .default .fresh 16).run movedBefore = some s ∧
      s.calls[1]? = some (.add ⟨[dot]⟩ (.new .rename) (.inside (.told 2240 (.ok ⟨1⟩)))) ∧
      s.run (.call 1 :: List.replicate 10 .reader) = some u ∧
      u.calls[1]? = some (.add ⟨[dot]⟩ (.new .rename) (.returned (.ok ()))) ∧
      u.table.paths = [] ∧ u.notifier.watches = [] ∧ u.descriptorOpen = true) ∧
    ∃ s u : Interplay, (start .default .fresh 16).run soughtBefore = some s ∧
      s.calls[2]? = some (.add ⟨[dot]⟩ (.new .rename) (.inside (.told 2240 (.ok ⟨1⟩)))) ∧
      s.run (.call 2 :: .call 1 :: List.replicate 3 .reader) = some u ∧
      u.calls[2]? = some (.add ⟨[dot]⟩ (.new .rename) (.returned (.ok ()))) ∧
      u.table.paths = [] ∧ u.notifier.watches = [] ∧ u.descriptorOpen = true := by
  constructor
  · have hvalues : ((start .default .fresh 16).run movedBefore).map
        (fun s => (s.calls[1]?, (s.run (.call 1 :: List.replicate 10 .reader)).map fun u =>
          (u.calls[1]?, u.table.paths, u.notifier.watches, u.descriptorOpen)))
        = some (some (.add ⟨[dot]⟩ (.new .rename) (.inside (.told 2240 (.ok ⟨1⟩)))),
            some (some (.add ⟨[dot]⟩ (.new .rename) (.returned (.ok ()))), [], [], true)) := by cbv
    obtain ⟨s, hs, hvalues⟩ := Option.map_eq_some_iff.mp hvalues
    obtain ⟨htold, hvalues⟩ := Prod.mk.inj hvalues
    obtain ⟨u, hu, hvalues⟩ := Option.map_eq_some_iff.mp hvalues
    simp only [Prod.mk.injEq] at hvalues
    exact ⟨s, u, hs, htold, hu, hvalues⟩
  · have hvalues : ((start .default .fresh 16).run soughtBefore).map
        (fun s => (s.calls[2]?, (s.run (.call 2 :: .call 1 :: List.replicate 3 .reader)).map fun u =>
          (u.calls[2]?, u.table.paths, u.notifier.watches, u.descriptorOpen)))
        = some (some (.add ⟨[dot]⟩ (.new .rename) (.inside (.told 2240 (.ok ⟨1⟩)))),
            some (some (.add ⟨[dot]⟩ (.new .rename) (.returned (.ok ()))), [], [], true)) := by cbv
    obtain ⟨s, hs, hvalues⟩ := Option.map_eq_some_iff.mp hvalues
    obtain ⟨htold, hvalues⟩ := Prod.mk.inj hvalues
    obtain ⟨u, hu, hvalues⟩ := Option.map_eq_some_iff.mp hvalues
    simp only [Prod.mk.injEq] at hvalues
    exact ⟨s, u, hs, htold, hu, hvalues⟩

end Interplay

end FileWatch
