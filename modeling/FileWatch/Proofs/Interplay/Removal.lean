import Mathlib
import FileWatch.Proofs.Interplay.Ending

/-!
# No event after a removal

A removal that returns promises that its handle is silent: nothing that was told under it is still to
be read, and nothing will be.  The promise rests on three parties.  The kernel queues the record that
says a watch is gone behind all other records of its handle; the reader is done with a record before
it takes up the next one; and the caller returns only if the handle no longer stands for its path.

So there is one way only for the pair of a path and its handle to leave the table while the watcher is
not being closed and nobody registers the one or is granted the other: the reader takes up the last
record of the handle.  Along every run the pair is in the table, or the two have `Parted` in that way.
-/

namespace FileWatch

namespace Interplay

variable {s t u : Interplay} {m : Move} {p : Path} {h : Handle}

/-- Every move but one that puts a path, or a handle, into the table. -/
def Undisturbed (p : Path) (h : Handle) (s : Interplay) (m : Move) : Prop :=
  ∀ i q o wanted g, m = .call i → s.calls[i]? = some (.add q o (.inside (.told wanted (.ok g)))) →
    (q.normalize == p.normalize) = false ∧ g ≠ h

theorem Onward.not_closing (onward : s.Onward t) (h : t.watcher.reader.closing = false) :
    s.watcher.reader.closing = false :=
  Bool.eq_false_iff.mpr fun hclosing => by
    rw [onward.closing hclosing] at h
    cases h

/-- A path and its handle have left the table, and nothing has to do with the handle. -/
structure Parted (s : Interplay) (p : Path) (h : Handle) : Prop where
  gone : s.Gone h
  absent : s.table.entry? p.normalize = none

/-! ## The pair and the table -/

theorem owns_without {t : WatchTable} {p : Path} {g h : Handle} (hne : h ≠ g)
    (howns : t.owns p h = true) : (t.without [g]).owns p h = true := by
  rw [WatchTable.owns_iff] at howns ⊢
  rw [WatchTable.resolve?_without, if_neg (by simpa using hne)]
  exact howns

theorem entry?_of_owns_without {t : WatchTable} (paired : t.Paired) {p : Path} {h : Handle}
    (howns : t.owns p h = true) : WatchTable.entry? (t.without [h]) p = none := by
  rw [WatchTable.entry?_without]
  obtain ⟨w, hw, rfl⟩ := WatchTable.handleOf?_eq_some_iff.mp ((paired p h).mp howns)
  rw [hw]
  simp

/-- A registration of another path under another handle leaves a pair alone. -/
theorem owns_insert {t : WatchTable} (paired : t.Paired) {p q : Path} {h : Handle} {w : Watch}
    (hpq : (q == p) = false) (hne : w.handle ≠ h) (howns : t.owns p h = true) :
    (t.insert q w).owns p h = true := by
  obtain ⟨x, hx, hxp⟩ := WatchTable.owns_iff.mp howns
  rw [WatchTable.owns_iff, WatchTable.resolve?_insert, if_neg hne, if_neg]
  · exact ⟨x, hx, hxp⟩
  · intro hq
    obtain ⟨v, hv, hvh⟩ := WatchTable.handleOf?_eq_some_iff.mp hq
    obtain ⟨w', hw', hwh⟩ := WatchTable.handleOf?_eq_some_iff.mp ((paired p h).mp howns)
    have := paired.beq_of_handle_eq hv hw' (hvh.trans hwh.symm)
    rw [hpq] at this
    cases this

/-- A reader that has ended and clears the table leaves nothing behind, not even in its own hands. -/
theorem parted_of_clear (hs : Reachable s) (hfire : s.fire m = some t)
    (released : s.reading = .released) (free : s.tableFree = true)
    (core : t.core = { s.core with table := .empty }) (p : Path) (h : Handle) : t.Parted p h := by
  have ht : Reachable t := hs.leads (.step .refl trivial hfire : Leads Anything s t)
  obtain ⟨heffect, htouches⟩ := effect_of_fire hs.legible hfire
  have htells := hs.ending.reading
  rw [released] at htells
  have hclosed := (onward_of_effect heffect).not_open htells.2.2
  obtain ⟨hwatches, hqueue⟩ := ht.ordered.closed hclosed
  have htable : t.table = .empty := congrArg Core.table core
  have hpending : t.pending = [] := by
    have htaken : t.taken = s.taken := congrArg Core.taken core
    unfold pending
    rw [htaken, hqueue]
    unfold taken
    rw [released, htells.1]
    rfl
  refine ⟨⟨⟨?_, fun hopen => ?_⟩, ?_, ?_, ?_⟩, ?_⟩
  · rw [Notifier.isLive, hwatches]
    rfl
  · rw [hclosed] at hopen
    cases hopen
  · rw [held_eq_nil_of_touches htells.2.2 (held_of_tableFree free) htouches]
    exact List.not_mem_nil
  · intro r hr
    rw [hpending] at hr
    cases hr
  · rw [htable]
    rfl
  · rw [htable]
    rfl

/-- **A pair stays in the table, or parts.** -/
theorem owns_or_parted_of_fire (hs : Reachable s) (hfire : s.fire m = some t)
    (undisturbed : Undisturbed p h s m) (patient : s.watcher.settings.removeTimeout? = none)
    (unclosed : s.watcher.reader.closing = false)
    (hpair : s.table.owns p.normalize h = true ∨ s.Parted p h) :
    t.table.owns p.normalize h = true ∨ t.Parted p h := by
  have ordered := hs.ordered
  obtain ⟨heffect, htouches⟩ := effect_of_fire hs.legible hfire
  have hgone : s.Gone h → t.Gone h := fun hgone => hgone.of_fire hs hfire
  -- Whatever leaves the table alone leaves the pair alone.
  have hsame : t.table = s.table → t.table.owns p.normalize h = true ∨ t.Parted p h := by
    intro htable
    rcases hpair with howns | ⟨hg, habsent⟩
    · exact .inl (htable ▸ howns)
    · exact .inr ⟨hgone hg, htable ▸ habsent⟩
  have htable : t.table = t.core.table := rfl
  -- A registration is one of another pair, and nobody's time is up; the last record parts the two.
  cases heffect with
  | still core | giveUp _ core | read rs left _ _ _ core | grant i inode flags g _ _ _ core
  | post r _ _ _ _ core | revoke h _ core | disk tree _ core | announce i _ core | stop _ core
  | release _ core | shut i result _ _ core => exact hsame (by rw [htable, core]; rfl)
  | done r _ _ _ core => exact hsame (congrArg Core.table core).symm
  | purge r mover hand last free woken after taken core =>
    have hpurged : t.table = s.table.without [r.handle] := by
      rw [htable, core]
      show (s.table.removeHandle r.handle).2 = _
      rw [ordered.paired.removeHandle_eq]
    rcases hpair with howns | ⟨hg, habsent⟩
    · by_cases hh : h = r.handle
      · subst hh
        refine .inr ⟨?_, ?_⟩
        · exact gone_of_purge ordered (.purge r mover hand last free woken after taken core)
            htouches last free taken core
        · rw [hpurged]
          exact entry?_of_owns_without ordered.paired howns
      · rw [hpurged]
        exact .inl (owns_without hh howns)
    · refine .inr ⟨hgone hg, ?_⟩
      rw [hpurged, WatchTable.entry?_without, habsent]
      rfl
  | store i q o wanted g mover stage core =>
    obtain ⟨hpq, hne⟩ := undisturbed i q o wanted g mover stage
    rw [htable, core]
    rcases hpair with howns | ⟨hg, habsent⟩
    · exact .inl (owns_insert ordered.paired hpq hne howns)
    · refine .inr ⟨hgone hg, ?_⟩
      rw [htable, core]
      show WatchTable.entry? (s.table.insert q.normalize ⟨g, wanted⟩) p.normalize = none
      rw [ordered.paired.entry?_insert, hpq, habsent]
      rfl
  | forced i g _ limited _ _ =>
    rw [patient] at limited
    cases limited
  | clear by_whom free _ core =>
    rcases by_whom with hreleased | ⟨i, result, hcall⟩
    · exact .inr (parted_of_clear hs hfire hreleased free core p h)
    · have := unclosed.symm.trans (hs.ending.closes hcall).1
      cases this

/-! ## The call -/

/-- How far a removal has come that has found a handle. -/
inductive Course (p : Path) (h : Handle) (i : Nat) (s : Interplay) : Prop
  | found (stage : s.calls[i]? = some (.remove p (.inside (.found h))))
      (pair : s.table.owns p.normalize h = true ∨ s.Parted p h)
  | waiting (stage : s.calls[i]? = some (.remove p (.inside (.waiting h))))
      (pair : s.table.owns p.normalize h = true ∨ s.Parted p h)
  | failed (f : Failure) (stage : s.calls[i]? = some (.remove p (.returned (.error f))))
  | finished (stage : s.calls[i]? = some (.remove p (.returned (.ok ())))) (parted : s.Parted p h)

theorem parted_of_owns_false (howns : s.table.owns p.normalize h = false)
    (hpair : s.table.owns p.normalize h = true ∨ s.Parted p h) : s.Parted p h := by
  rcases hpair with hyes | hparted
  · rw [howns] at hyes
    cases hyes
  · exact hparted

/-- The next step of the removal itself. -/
theorem course_of_callStep {i : Nat} {g : Removing} {c : Call}
    (hcall : s.calls[i]? = some (.remove p (.inside g))) (hg : g = .found h ∨ g = .waiting h)
    (patient : s.watcher.settings.removeTimeout? = none)
    (step : s.CallStep i m (.remove p (.inside g)) c u)
    (hpair : (u.put i c).table.owns p.normalize h = true ∨ (u.put i c).Parted p h) :
    (u.put i c).Course p h i := by
  have hafter := step.after hcall
  rcases hg with rfl | rfl
  · cases step with
    | removeKnocks knock => cases knock
    | removeAsks => exact .waiting hafter hpair
    | removeShutOut => exact .failed .closed hafter
  · cases step with
    | removeKnocks knock => cases knock
    | removeConfirmed _ _ gone => exact .finished hafter (parted_of_owns_false gone hpair)
    | removeSleeps => exact .waiting hafter hpair
    | removeTimesOut _ _ limited | removeForces _ _ limited =>
      rw [patient] at limited
      cases limited

theorem course_of_fire (hs : Reachable s) (hfire : s.fire m = some t)
    (undisturbed : Undisturbed p h s m) (patient : s.watcher.settings.removeTimeout? = none)
    (unclosed : s.watcher.reader.closing = false) {i : Nat} (course : s.Course p h i) :
    t.Course p h i := by
  have htouches := (effect_of_fire hs.legible hfire).2
  have hpair := owns_or_parted_of_fire hs hfire undisturbed patient unclosed
  have hinside : ∀ g : Removing, g = .found h ∨ g = .waiting h →
      s.calls[i]? = some (.remove p (.inside g)) →
      s.table.owns p.normalize h = true ∨ s.Parted p h → t.Course p h i := by
    intro g hg hcall hbefore
    by_cases hm : m.caller? = some i
    · obtain ⟨c, u, step, rfl⟩ := callStep_of_fire hcall hm hfire
      exact course_of_callStep hcall hg patient step (hpair hbefore)
    · have hstay := call_stays htouches hcall hm
      rcases hg with rfl | rfl
      · exact .found hstay (hpair hbefore)
      · exact .waiting hstay (hpair hbefore)
  cases course with
  | found stage pair => exact hinside _ (.inl rfl) stage pair
  | waiting stage pair => exact hinside _ (.inr rfl) stage pair
  | failed f stage => exact .failed f (call_stays_returned hs.legible hfire stage rfl)
  | finished stage parted =>
    refine .finished (call_stays_returned hs.legible hfire stage rfl) ?_
    rcases hpair (.inr parted) with howns | hparted
    · -- A handle that nothing has to do with stands for no path.
      have hgone := (parted.gone.of_fire hs hfire).unresolved
      rw [WatchTable.owns, hgone] at howns
      cases howns
    · exact hparted

theorem course_of_leads (ht : Reachable t) {i : Nat} (course : t.Course p h i)
    (patient : t.watcher.settings.removeTimeout? = none) (meanwhile : Leads (Undisturbed p h) t u)
    (unclosed : u.watcher.reader.closing = false) : u.Course p h i := by
  induction meanwhile with
  | refl => exact course
  | step before allowed fired ih =>
    have hv := ht.leads before
    have hback := (onward_of_effect (effect_of_fire hv.legible fired).1).not_closing unclosed
    exact course_of_fire hv fired allowed ((before.onward ht).settings ▸ patient) hback (ih hback)

/-! ## The records -/

/-- The last step of the reader with a record: its event is handed over, or there is none. -/
structure Dispatches (s : Interplay) (r : Record) (t : Interplay) : Prop where
  hand : s.reading.record? = some r
  step : s.fire .reader = some t
  after : t.reading.record? = none

/-- A record that waits still waits after a move, unless the reader is done with it, or gives it up, or
the descriptor is closed. -/
theorem pending_of_fire (legible : s.Legible) (hfire : s.fire m = some t) {r : Record}
    (hr : r ∈ s.pending) : r ∈ t.pending ∨ (m = .reader ∧ s.Dispatches r t) ∨
      (s.watcher.reader.closing = true ∧ t.reading = .leaving) ∨
      (t.descriptorOpen = false ∧ (s.reading = .stopping ∨
        ∃ (i : Nat) (result : Except Failure Unit), s.calls[i]? = some (.close (.joined result)))) := by
  have hpending : ∀ v : Interplay, v.pending = v.core.taken ++ v.core.notifier.queue := fun _ => rfl
  rw [hpending] at hr ⊢
  cases (effect_of_fire legible hfire).1 with
  | still core | store i p o wanted h _ _ core | forced i h _ _ _ core | disk tree _ core
  | announce i _ core | stop _ core | clear _ _ _ core | shut i result _ _ core =>
    rw [core]
    exact .inl hr
  | done q mover hand after core =>
    subst mover
    rw [core] at hr
    rcases List.mem_cons.mp hr with rfl | hr
    · exact .inr (.inl ⟨rfl, hand, hfire, after⟩)
    · exact .inl hr
  | purge q mover hand _ _ _ after taken core =>
    subst mover
    have hqueue : s.core.taken = q :: t.taken := taken
    rw [hqueue] at hr
    rw [core]
    rcases List.mem_cons.mp hr with rfl | hr
    · exact .inr (.inl ⟨rfl, by rw [hand]; rfl, hfire, after⟩)
    · exact .inl hr
  | giveUp closing _ after => exact .inr (.inr (.inl ⟨closing, after⟩))
  | read rs left _ empty queue core =>
    rw [core]
    have htaken : s.core.taken = [] := empty
    have hqueue : s.core.notifier.queue = rs ++ left := queue
    rw [htaken, hqueue] at hr
    exact .inl hr
  | grant i inode flags h _ _ granted core =>
    rw [core]
    show r ∈ s.taken ++ (s.notifier.grant inode flags).2.queue ∨ _
    rw [Notifier.queue_grant granted]
    exact .inl hr
  | post q _ _ _ _ core =>
    rw [core]
    refine .inl (List.mem_append.mpr ((List.mem_append.mp hr).imp_right fun hqueue => ?_))
    exact (Notifier.queue_prefix_post q).subset hqueue
  | revoke h _ core =>
    rw [core]
    refine .inl (List.mem_append.mpr ((List.mem_append.mp hr).imp_right fun hqueue => ?_))
    exact (Notifier.queue_prefix_revoke h).subset hqueue
  | release by_whom core =>
    exact .inr (.inr (.inr ⟨congrArg Core.descriptorOpen core, by_whom⟩))

/-- While the watcher has its reader and is not being closed, a record that waits still waits after a
move, or was dispatched in it. -/
theorem pending_or_dispatches (hs : Reachable s) (hfire : s.fire m = some t)
    (running : s.watcher.reader.running = true) (unclosed : s.watcher.reader.closing = false)
    {r : Record} (hr : r ∈ s.pending) : r ∈ t.pending ∨ s.Dispatches r t := by
  rcases pending_of_fire hs.legible hfire hr with
    hwaits | ⟨-, hdispatched⟩ | ⟨closing, -⟩ | ⟨-, hstopping | ⟨i, result, hcall⟩⟩
  · exact .inl hwaits
  · exact .inr hdispatched
  · rw [unclosed] at closing
    cases closing
  · have htells := hs.ending.reading
    rw [hstopping] at htells
    have := running.symm.trans htells.2
    cases this
  · have := unclosed.symm.trans (hs.ending.closes hcall)
    cases this

theorem dispatches_of_leads {kind : Interplay → Move → Prop} (hs : Reachable s)
    (hst : Leads kind s t) (running : t.watcher.reader.running = true)
    (unclosed : t.watcher.reader.closing = false) {r : Record} (hr : r ∈ s.pending) :
    r ∈ t.pending ∨ ∃ x y, Leads kind s x ∧ x.Dispatches r y ∧ Leads kind y t := by
  induction hst with
  | refl => exact .inl hr
  | step before allowed fired ih =>
    have hv := hs.leads before
    have honward := onward_of_effect (effect_of_fire hv.legible fired).1
    have hrunning := honward.running running
    have hunclosed := honward.not_closing unclosed
    rcases ih hrunning hunclosed with hwaits | ⟨x, y, hx, hxy, hy⟩
    · rcases pending_or_dispatches hv fired hrunning hunclosed hwaits with hstill | hdispatches
      · exact .inl hstill
      · exact .inr ⟨_, _, before, hdispatches, .refl⟩
    · exact .inr ⟨x, y, hx, hxy, .step hy allowed fired⟩

/-! ## The promise -/

/-- **No event after a removal.**  A removal of a path finds a handle, and returns without a failure.
It waited without a limit, the watcher is not being closed, and in the meantime nobody registered the
path or stored the handle for another one.  Then neither the path nor the handle is in the table, in
either direction.  If there still is a reader, each record of the handle that waited meanwhile was
dispatched by it.  And however things go on, no record of the handle waits, and no event of one is
handed over. -/
theorem remove_silences {i : Nat} (reachable : Reachable s)
    (calling : s.calls[i]? = some (.remove p (.inside .admitted)))
    (looks : s.fire (.call i) = some t)
    (finds : t.calls[i]? = some (.remove p (.inside (.found h))))
    (meanwhile : Leads (Undisturbed p h) t u)
    (patient : s.watcher.settings.removeTimeout? = none)
    (returns : u.calls[i]? = some (.remove p (.returned (.ok ()))))
    (unclosed : u.watcher.reader.closing = false) :
    (u.table.entry? p.normalize = none ∧ (∀ g q, u.table.resolve? g = some q →
        (q == p.normalize) = false) ∧
      u.table.resolve? h = none ∧ ∀ q, u.table.handleOf? q ≠ some h) ∧
    (u.watcher.reader.running = true → ∀ v, Leads (Undisturbed p h) t v →
      Leads (Undisturbed p h) v u → ∀ r ∈ v.pending, r.handle = h →
        ∃ x y, Leads (Undisturbed p h) v x ∧ x.Dispatches r y ∧ Leads (Undisturbed p h) y u) ∧
    ∀ w, Leads Anything u w → (∀ r ∈ w.pending, r.handle ≠ h) ∧
      ∀ r e, w.reading = .handing r e → r.handle ≠ h := by
  have ht : Reachable t := reachable.leads (.step .refl trivial looks : Leads Anything s t)
  have honward := onward_of_effect (effect_of_fire reachable.legible looks).1
  -- What the look has found is the pair that is in the table.
  have hpair : t.table.owns p.normalize h = true := by
    simp only [fire, fireCall, calling, fireRemove] at looks
    split at looks
    · cases looks
      have hcall := calls_put_self calling finds
      rw [ht.ordered.paired p.normalize h]
      show s.table.handleOf? p.normalize = some h
      cases hhandle : s.table.handleOf? p.normalize with
      | none =>
        simp only [hhandle] at hcall
        cases hcall
      | some g =>
        simp only [hhandle] at hcall
        cases hcall
        rfl
    · cases looks
  have hcourse := course_of_leads ht (.found finds (.inl hpair)) (honward.settings ▸ patient)
    meanwhile unclosed
  obtain ⟨hgone, habsent⟩ : u.Parted p h := by
    cases hcourse with
    | found stage | waiting stage | failed _ stage =>
      rw [returns] at stage
      cases stage
    | finished _ parted => exact parted
  have hu : Reachable u := ht.leads meanwhile
  have paired := hu.ordered.paired
  refine ⟨⟨habsent, ?_, hgone.unresolved, ?_⟩, ?_, ?_⟩
  · intro g q hq
    refine Bool.eq_false_iff.mpr fun hqp => ?_
    obtain ⟨w, hw, -⟩ := (paired.resolve?_iff p.normalize g).mp ⟨q, hq, hqp⟩
    rw [habsent] at hw
    cases hw
  · intro q hq
    obtain ⟨x, hx, -⟩ := WatchTable.owns_iff.mp ((paired q h).mpr hq)
    rw [hgone.unresolved] at hx
    cases hx
  · intro running v hv hvu r hr hh
    rcases dispatches_of_leads (ht.leads hv) hvu running unclosed hr with hwaits | hdispatched
    · exact absurd hh (hgone.notPending r hwaits)
    · exact hdispatched
  · intro w hw
    have hsilent := (hgone.leads hu hw).notPending
    refine ⟨hsilent, fun r e hand => hsilent r ?_⟩
    unfold pending taken
    rw [hand]
    exact List.mem_cons_self

/-- A run in which only the removal and the reader move disturbs nothing. -/
theorem undisturbed_of_run (hs : Reachable s) {i : Nat} {c : Call} {moves : List Move}
    (hcall : s.calls[i]? = some c) (hc : c.request = .remove p)
    (hmoves : ∀ m ∈ moves, m = .call i ∨ m = .reader) (hrun : s.run moves = some t) :
    Leads (Undisturbed p h) s t := by
  induction moves generalizing s c with
  | nil =>
    cases hrun
    exact .refl
  | cons m rest ih =>
    obtain ⟨v, hfire, hrest⟩ := Option.bind_eq_some_iff.mp hrun
    have hallowed : Undisturbed p h s m := by
      rintro j q o wanted g rfl hadd
      rcases hmoves _ List.mem_cons_self with heq | heq
      · cases heq
        rw [hcall, Option.some.injEq] at hadd
        subst hadd
        cases hc
      · cases heq
    have hstep : Leads (Undisturbed p h) s v := .step .refl hallowed hfire
    obtain ⟨d, hd, hrequest⟩ : ∃ d, v.calls[i]? = some d ∧ d.request = .remove p := by
      obtain ⟨d, hd, hrequest⟩ := request_of_touches (effect_of_fire hs.legible hfire).2 hcall
      exact ⟨d, hd, hrequest.trans hc⟩
    exact hstep.trans (ih (hs.leads hstep) hd hrequest
      (fun m' hm' => hmoves m' (List.mem_cons_of_mem _ hm')) hrest)

/-- A directory is registered, a deletion in it is queued, and it is about to be removed. -/
def visit : List Move :=
  [.begin (.add ⟨[dot]⟩ (.new .remove) .arriving), .call 0, .call 0, .call 0, .call 0, .call 0,
    .queue ⟨⟨1⟩, Mask.delete, 0, some [0x61]⟩, .begin (.remove ⟨[dot]⟩ .arriving), .call 1, .call 1]

/-- The removal asks the kernel, the reader reads, and the removal looks. -/
def farewell : List Move := [.call 1] ++ List.replicate 9 .reader ++ [.call 1]

theorem remove_silences_visit : ∃ s t u : Interplay,
    (start .default .fresh 16).run visit = some s ∧ s.fire (.call 1) = some t ∧
      t.run farewell = some u ∧ t.pending.length = 1 ∧ u.table.resolve? ⟨1⟩ = none ∧
      ∀ w, Leads Anything u w → ∀ r ∈ w.pending, r.handle ≠ ⟨1⟩ := by
  have hbefore : ((start .default .fresh 16).run visit).map (fun s =>
      (s.calls[1]?, s.watcher.settings.removeTimeout?))
        = some (some (.remove ⟨[dot]⟩ (.inside .admitted)), none) := by cbv
  obtain ⟨s, hs, hvalues⟩ := Option.map_eq_some_iff.mp hbefore
  obtain ⟨hcall, hpatient⟩ := Prod.mk.inj hvalues
  have hlook : (((start .default .fresh 16).run visit).bind fun s => s.fire (.call 1)).map (fun t =>
      (t.calls[1]?, t.pending.length))
        = some (some (.remove ⟨[dot]⟩ (.inside (.found ⟨1⟩))), 1) := by cbv
  rw [hs, Option.bind_some] at hlook
  obtain ⟨t, ht, hvalues⟩ := Option.map_eq_some_iff.mp hlook
  obtain ⟨hfound, hpending⟩ := Prod.mk.inj hvalues
  have hafter : ((((start .default .fresh 16).run visit).bind fun s => s.fire (.call 1)).bind
      fun t => t.run farewell).map (fun u => (u.calls[1]?, u.watcher.reader.closing))
        = some (some (.remove ⟨[dot]⟩ (.returned (.ok ()))), false) := by cbv
  rw [hs, Option.bind_some, ht, Option.bind_some] at hafter
  obtain ⟨u, hu, hvalues⟩ := Option.map_eq_some_iff.mp hafter
  obtain ⟨hreturned, hunclosed⟩ := Prod.mk.inj hvalues
  have hreachable : Reachable s := ⟨_, _, _, leads_of_run hs⟩
  have hmeanwhile : Leads (Undisturbed ⟨[dot]⟩ ⟨1⟩) t u := by
    refine undisturbed_of_run (hreachable.leads (.step .refl trivial ht : Leads Anything s t))
      hfound rfl ?_ hu
    simp [farewell]
  obtain ⟨⟨-, -, hresolve, -⟩, -, hsilent⟩ := remove_silences hreachable hcall ht hfound hmeanwhile
    hpatient hreturned hunclosed
  exact ⟨s, t, u, hs, ht, hu, hpending, hresolve, fun w hw => (hsilent w hw).1⟩

end Interplay

end FileWatch
