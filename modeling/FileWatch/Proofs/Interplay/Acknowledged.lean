import FileWatch.Proofs.Interplay.Advance
import FileWatch.Proofs.Interplay.Origins
import FileWatch.Proofs.Interplay.Removal
import FileWatch.Proofs.Interplay.Shutdown

/-!
# A dead watch is acknowledged

When the kernel drops a watch, it queues one last record of its handle, and the table keeps the handle
until the reader has taken that record up.  A removal that waits for the handle relies on it.

The last record can be lost in one place only, the full queue.  If there was room (`Spared`), the record
waits until it reaches the table, unless the reader leaves or the descriptor is closed; and then the
table is cleared (`noticed_of_fire`, `sweeper`).  So whoever has a handle has a live one or one whose end
is on the way to it (`Attended`), and the reader and the calls need nobody else to bring it there
(`exists_vacates`).

If there was no room, nothing ever takes the handle out of the table (`dead_watch_not_acknowledged`).
-/

namespace FileWatch

namespace Interplay

variable {s t u : Interplay} {m : Move} {i : Nat} {p : Path} {h : Handle}

/-! ## With a last record the reader does one thing -/

/-- The last record of a watch goes no further than where it is taken up. -/
def Reading.Sifted (reading : Reading) : Prop :=
  ∀ r, reading.record? = some r → r.mask.has Mask.ignored = true → reading = .taken r

theorem Reading.Turn.sifted {before after : Reading} (turn : Reading.Turn m before after)
    (sifted : before.Sifted) : after.Sifted := by
  intro r hrecord hlast
  cases turn with
  | stays => exact sifted r hrecord hlast
  | take q =>
    cases hrecord
    rfl
  | fails more | settle more =>
    cases hrecord
    rw [more] at hlast
    cases hlast
  | resume | nest | pass | uncovered | translate | keep =>
    cases hrecord
    cases sifted r rfl hlast
  | _ => cases hrecord

theorem Reachable.sifted (hs : Reachable s) : s.reading.Sifted := by
  suffices h : s.Legible ∧ s.reading.Sifted from h.2
  refine hs.induction (P := fun s => s.Legible ∧ s.reading.Sifted) (fun settings tree limit => ?_)
    fun h hfire => ?_
  · exact ⟨legible_start settings tree limit, nofun⟩
  · exact ⟨legible_of_fire h.1 hfire,
      (turn_of_fire hfire).sifted h.2⟩

/-- The reader takes up the last record of a handle, and nothing has to do with it any more. -/
theorem gone_of_lastRecord (hs : Reachable s) (hand : s.reading = .taken (Notifier.lastRecord h))
    (hfire : s.fire .reader = some t) : t.Gone h ∧ t.sleepers = [] := by
  obtain ⟨heffect, htouches⟩ := effect_of_fire hs.legible hfire
  obtain ⟨free, rfl⟩ := (readerStep_of_fire hand hfire).of_lastRecord
  have hlast := Notifier.lastRecord_isLast h
  refine ⟨gone_of_purge hs.ordered heffect htouches hlast free ?_ rfl, rfl⟩
  unfold taken
  rw [hand]
  rfl

/-! ## On the way to the table -/

/-- The reader is on its way out, or the descriptor is closed. -/
def WindsUp (s : Interplay) : Prop := s.reading.departs = true ∨ s.descriptorOpen = false

theorem Reading.Turn.departs {before after : Reading} (turn : Reading.Turn m before after)
    (departs : before.departs = true) : after.departs = true := by
  cases turn with
  | stays => exact departs
  | stop | release | clear | go => rfl
  | _ => cases departs

theorem WindsUp.of_fire (legible : s.Legible) (windsUp : s.WindsUp) (hfire : s.fire m = some t) :
    t.WindsUp := by
  obtain ⟨heffect, htouches⟩ := effect_of_fire legible hfire
  rcases windsUp with departs | closed
  · exact .inl ((turn_of_fire hfire).departs departs)
  · exact .inr ((onward_of_effect heffect).not_open closed)

/-- The last record of a handle waits, or the watcher is wound up. -/
def Noticed (h : Handle) (s : Interplay) : Prop :=
  Notifier.lastRecord h ∈ s.pending ∨ s.WindsUp

theorem noticed_of_fire (hs : Reachable s) (hfire : s.fire m = some t) (noticed : s.Noticed h) :
    t.Noticed h ∨ m = .reader ∧ t.Gone h ∧ t.sleepers = [] := by
  rcases noticed with hlast | windsUp
  · rcases pending_of_fire hs.legible hfire hlast with
      hwaits | ⟨hm, hand, hstep, -⟩ | ⟨-, hleaving⟩ | ⟨hclosed, -⟩
    · exact .inl (.inl hwaits)
    · exact .inr ⟨hm, gone_of_lastRecord hs (hs.sifted _ hand (Notifier.lastRecord_isLast h)) hstep⟩
    · refine .inl (.inr (.inl ?_))
      rw [hleaving]
      rfl
    · exact .inl (.inr (.inr hclosed))
  · exact .inl (.inr (windsUp.of_fire hs.legible hfire))

/-! ## Who has a handle knows of its death -/

/-- When a watch is dropped, there is room for its last record. -/
def Spared (h : Handle) (s : Interplay) (m : Move) : Prop :=
  ∀ t, s.fire m = some t → t.descriptorOpen = true → s.notifier.isLive h = true →
    t.notifier.isLive h = false → s.notifier.queue.length < s.notifier.limit

theorem live_of_fire (legible : s.Legible) (spared : Spared h s m) (hfire : s.fire m = some t)
    (live : s.notifier.isLive h = true) : t.notifier.isLive h = true ∨ t.Noticed h := by
  rcases live_or_dropped (effect_of_fire legible hfire).1 live with
    hlive | hclosed | ⟨hnotifier, -⟩
  · exact .inl hlive
  · exact .inr (.inr (.inr hclosed))
  · right
    cases hopen : t.descriptorOpen with
    | false => exact .inr (.inr hopen)
    | true =>
      have hdead : t.notifier.isLive h = false := by
        rw [hnotifier, Notifier.isLive_revoke]
        simp
      left
      rw [pending, hnotifier, Notifier.queue_revoke_of_room live (spared t hfire hopen live hdead)]
      simp

/-- A handle that the table or a registration has is live, or its last record is on the way. -/
def Attended (h : Handle) (s : Interplay) : Prop :=
  h ∈ s.held ∨ s.table.resolve? h ≠ none → s.notifier.isLive h = true ∨ s.Noticed h

theorem Attended.of_fire (hs : Reachable s) (attended : s.Attended h) (spared : Spared h s m)
    (hfire : s.fire m = some t) : t.Attended h := by
  intro has
  have hbefore : h ∈ s.held ∨ s.table.resolve? h ≠ none →
      t.notifier.isLive h = true ∨ t.Noticed h := by
    intro hhad
    rcases attended hhad with live | noticed
    · exact live_of_fire hs.legible spared hfire live
    · rcases noticed_of_fire hs hfire noticed with hstill | ⟨-, hgone, -⟩
      · exact .inr hstill
      · rcases has with hheld | hresolve
        · exact absurd hheld hgone.notHeld
        · exact absurd hgone.unresolved hresolve
  -- Who has the handle had it before, or was granted it in this move, and then it is live.
  rcases has with hheld | hresolve
  · obtain ⟨i, p, o, wanted, stage⟩ := exists_stage_of_mem_held hheld
    rcases told_of_fire hfire stage with hsame | ⟨-, inode, flags, -, -, -, granted, core⟩
    · exact hbefore (.inl (mem_held hsame))
    · left
      have hnotifier : t.notifier = (s.notifier.grant inode flags).2 := congrArg Core.notifier core
      rw [hnotifier, Notifier.isLive_grant granted]
      simp
  · by_cases hhad : h ∈ s.held ∨ s.table.resolve? h ≠ none
    · exact hbefore hhad
    · rw [not_or, not_not] at hhad
      exact absurd (resolve?_of_notHeld hs.ordered hfire hhad.1 hhad.2) hresolve

theorem attended_of_leads (hs : Reachable s) (attended : s.Attended h)
    (hst : Leads (Spared h) s t) : t.Attended h := by
  induction hst with
  | refl => exact attended
  | step before spared fired ih => exact ih.of_fire (hs.leads before) spared fired

/-! ## The last record gets to the table -/

/-- Steps of the reader and of calls. -/
def Tending (_ : Interplay) (m : Move) : Prop := m = .reader ∨ m = .giveUp ∨ ∃ i, m = .call i

/-- A handle leaves the table.  Nobody sleeps or holds the table then, and whoever waited for the handle
still waits. -/
structure Vacates (h : Handle) (s t : Interplay) : Prop where
  leads : Leads Tending s t
  unresolved : t.table.resolve? h = none
  sleepers : t.sleepers = []
  free : t.tableFree = true
  waiting : ∀ (i : Nat) p, s.calls[i]? = some (.remove p (.inside (.waiting h))) →
    t.calls[i]? = some (.remove p (.inside (.waiting h)))

theorem Vacates.after (before : Leads Tending s t) (waiting : ∀ (i : Nat) p,
      s.calls[i]? = some (.remove p (.inside (.waiting h))) →
      t.calls[i]? = some (.remove p (.inside (.waiting h))))
    (vacates : t.Vacates h u) : s.Vacates h u :=
  ⟨before.trans vacates.leads, vacates.unresolved, vacates.sleepers, vacates.free,
    fun i p stage => vacates.waiting i p (waiting i p stage)⟩

theorem Vacates.of_fire (tending : Tending s m) (hfire : s.fire m = some t)
    (calls : t.calls = s.calls) (vacates : t.Vacates h u) : s.Vacates h u :=
  .after (.step .refl tending hfire) (fun _ _ stage => by rw [calls]; exact stage) vacates

/-- Once the descriptor is closed, the table is cleared, or is going to be. -/
theorem sweeper (hs : Reachable s) (closed : s.descriptorOpen = false) :
    s.reading = .released ∨
      (∃ (i : Nat) (result : Except Failure Unit), s.calls[i]? = some (.close (.released result))) ∨
      s.Swept := by
  obtain ⟨settings, tree, limit, hstart⟩ := hs
  induction hstart with
  | refl => cases closed
  | @step v t m before _ fired ih =>
    have hv : Reachable v := ⟨settings, tree, limit, before⟩
    obtain ⟨heffect, htouches⟩ := effect_of_fire hv.legible fired
    cases hopen : v.descriptorOpen with
    | false =>
      rcases ih hopen with hreleased | ⟨i, result, hcall⟩ | swept
      · have hturn := turn_of_fire fired
        rw [hreleased] at hturn
        generalize hafter : t.reading = after at hturn
        cases hturn with
        | stays => exact .inl rfl
        | clear => exact .inr (.inr (.inl hafter))
      · by_cases hm : m.caller? = some i
        · obtain ⟨c, u, step, rfl⟩ := callStep_of_fire hcall hm fired
          have after := step.after hcall
          cases step
          exact .inr (.inr (.inr (.inr (.inl ⟨i, result, after⟩))))
        · exact .inr (.inl ⟨i, result, call_stays htouches hcall hm⟩)
      · exact .inr (.inr (swept.of_fire hv fired))
    | true =>
      have hstill : t.core.descriptorOpen ≠ v.core.descriptorOpen := by
        show t.descriptorOpen ≠ v.descriptorOpen
        rw [closed, hopen]
        exact Bool.false_ne_true
      cases heffect with
      | release _ _ after =>
        rcases after with hreleased | hcall
        · exact .inl hreleased
        · exact .inr (.inl hcall)
      | done _ _ _ _ core =>
        rw [core] at hstill
        exact absurd rfl hstill
      | still core | purge _ _ _ _ _ _ _ _ core | giveUp _ core | read _ _ _ _ _ core
      | grant _ _ _ _ _ _ _ core | store _ _ _ _ _ _ _ core | post _ _ _ _ _ core
      | revoke _ _ core | forced _ _ _ _ _ core | disk _ _ core | announce _ _ core | stop _ core
      | clear _ _ _ core | shut _ _ _ _ core =>
        rw [core] at hstill
        exact absurd rfl hstill

theorem vacates_of_closed (hs : Reachable s) (free : s.tableFree = true)
    (closed : s.descriptorOpen = false) (h : Handle) : ∃ t, s.Vacates h t := by
  rcases sweeper hs closed with hreleased | ⟨j, result, hcall⟩ | swept
  · have hfire := (ReaderStep.clear free).fire hreleased
    exact ⟨_, .step .refl (.inl rfl) hfire, rfl, rfl, free, fun _ _ stage => stage⟩
  · have hfire := (CallStep.closeClears free).fire hcall
    refine ⟨_, .step .refl (.inr (.inr ⟨j, rfl⟩)) hfire, rfl, rfl, ?_, ?_⟩
    · refine List.all_eq_true.mpr fun c hc => ?_
      rcases List.mem_or_eq_of_mem_set hc with hc | rfl
      · exact List.all_eq_true.mp free c hc
      · rfl
    · intro i p stage
      have hij : j ≠ i := by
        rintro rfl
        cases hcall.symm.trans stage
      exact (List.getElem?_set_ne hij).trans stage
  · have bare := swept.bare hs.ending
    exact ⟨s, .refl, by rw [bare.table]; rfl, bare.sleepers, free, fun _ _ stage => stage⟩

theorem vacates_of_windsUp (hs : Reachable s) (free : s.tableFree = true)
    (windsUp : s.WindsUp) (h : Handle) : ∃ t, s.Vacates h t := by
  rcases windsUp with departs | closed
  swap
  · exact vacates_of_closed hs free closed h
  have htells := hs.ending.reading
  have hstopping : ∀ {v : Interplay}, Reachable v → v.tableFree = true → v.reading = .stopping →
      ∃ t, v.Vacates h t := by
    intro v hv hfree hand
    have hfire := ReaderStep.release.fire hand
    obtain ⟨t, vacates⟩ := vacates_of_closed
      (hv.leads (.step .refl trivial hfire : Leads Anything v _)) hfree rfl h
    exact ⟨t, .of_fire (.inl rfl) hfire rfl vacates⟩
  cases hand : s.reading with
  | leaving =>
    have hfire := ReaderStep.stop.fire hand
    obtain ⟨t, vacates⟩ := hstopping
      (hs.leads (.step .refl trivial hfire : Leads Anything s _)) free rfl
    exact ⟨t, .of_fire (.inl rfl) hfire rfl vacates⟩
  | stopping => exact hstopping hs free hand
  | released =>
    rw [hand] at htells
    exact vacates_of_closed hs free htells.2.2 h
  | cleared | gone =>
    rw [hand] at htells
    exact vacates_of_closed hs free htells.2.2.descriptorOpen h
  | _ =>
    rw [hand] at departs
    cases departs

/-- Whoever holds the table lets go of it, and no last record is lost on the way. -/
theorem exists_tableFree (hs : Reachable s) (noticed : s.Noticed h) : ∃ t, Leads Tending s t ∧
    t.tableFree = true ∧ t.Noticed h ∧ ∀ (i : Nat) p,
      s.calls[i]? = some (.remove p (.inside (.waiting h))) →
      t.calls[i]? = some (.remove p (.inside (.waiting h))) := by
  induction hrest : s.rest using Nat.strongRecOn generalizing s with
  | ind n ih =>
    by_cases free : s.tableFree = true
    · exact ⟨s, .refl, free, noticed, fun _ _ stage => stage⟩
    obtain ⟨c, hc, holds⟩ : ∃ c ∈ s.calls, c.holdsTable = true := by
      unfold tableFree at free
      rw [Bool.not_eq_true, List.all_eq_false] at free
      simpa using free
    obtain ⟨j, hj⟩ := List.mem_iff_getElem?.mp hc
    obtain ⟨c', v, step, hless⟩ := callStep_of_holdsTable holds
    have hstep : Leads Tending s (v.put j c') := .step .refl (.inr (.inr ⟨j, rfl⟩)) (step.fire hj)
    have hnoticed : (v.put j c').Noticed h := by
      rcases noticed_of_fire hs (step.fire hj) noticed with
        hstill | ⟨hm, -⟩
      · exact hstill
      · cases hm
    obtain ⟨u, hu, hfree, hunoticed, hwaiting⟩ := ih _ (hrest ▸ step.rest_lt hj hless)
      (hs.leads hstep) hnoticed rfl
    refine ⟨u, hstep.trans hu, hfree, hunoticed, fun i p stage => hwaiting i p ?_⟩
    have hij : j ≠ i := by
      rintro rfl
      cases hj.symm.trans stage
      cases holds
    show (v.calls.set j c')[i]? = _
    rw [step.calls, List.getElem?_set_ne hij]
    exact stage

/-- **A last record that waits gets to the table.**  The reader works its way to it, unless it gives up;
but then it clears the table. -/
theorem exists_vacates (hs : Reachable s) (free : s.tableFree = true) (noticed : s.Noticed h) :
    ∃ t, s.Vacates h t := by
  induction hwork : s.work using Nat.strongRecOn generalizing s with
  | ind n ih =>
    by_cases windsUp : s.WindsUp
    · exact vacates_of_windsUp hs free windsUp h
    have hlast : Notifier.lastRecord h ∈ s.pending := noticed.resolve_right windsUp
    -- As long as it waits, the reader has something to do, and each step leaves it less.
    obtain ⟨hstays, hopen⟩ := not_or.mp windsUp
    rw [Bool.not_eq_true] at hstays
    rw [Bool.not_eq_false] at hopen
    have hbusy : ¬ (s.reading = .polling ∧ s.batch = [] ∧ s.notifier.queue = []) := by
      rintro ⟨hand, hbatch, hqueue⟩
      rw [pending, taken, hand, hbatch, hqueue] at hlast
      cases hlast
    rcases reader_advances hs.legible hopen free hstays hbusy with
      ⟨t, hfire, hless⟩ | ⟨-, t, hfire, hleaving, hcalls⟩
    · have hcalls := (readerStep_of_fire rfl hfire).calls
      have hfree : t.tableFree = true := by
        rw [tableFree, hcalls]
        exact free
      rcases noticed_of_fire hs hfire noticed with hstill | ⟨-, hgone, hawake⟩
      · have ht : Reachable t := hs.leads (.step .refl trivial hfire : Leads Anything s t)
        obtain ⟨u, vacates⟩ := ih t.work (hwork ▸ hless) ht hfree hstill rfl
        exact ⟨u, .of_fire (.inl rfl) hfire hcalls vacates⟩
      · refine ⟨t, .step .refl (.inl rfl) hfire, hgone.unresolved, hawake, hfree, ?_⟩
        intro i p stage
        rw [hcalls]
        exact stage
    · have hfree : t.tableFree = true := by
        rw [tableFree, hcalls]
        exact free
      have hdeparts : t.reading.departs = true := by
        rw [hleaving]
        rfl
      have ht : Reachable t := hs.leads (.step .refl trivial hfire : Leads Anything s t)
      obtain ⟨u, vacates⟩ := vacates_of_windsUp ht hfree (.inl hdeparts) h
      exact ⟨u, .of_fire (.inr (.inl rfl)) hfire hcalls vacates⟩

theorem returns_of_unresolved (free : s.tableFree = true) (awake : s.sleepers = [])
    (unresolved : s.table.resolve? h = none)
    (stage : s.calls[i]? = some (.remove p (.inside (.waiting h)))) :
    ∃ t, s.fire (.call i) = some t ∧ t.calls[i]? = some (.remove p (.returned (.ok ()))) := by
  have howns : s.table.owns p.normalize h = false := by
    rw [WatchTable.owns, unresolved]
  have hawake : s.sleepers.contains i = false := by
    rw [awake]
    rfl
  have step : s.CallStep i (.call i) _ _ s := .removeConfirmed free hawake howns
  exact ⟨_, step.fire stage, step.after stage⟩

/-! ## The promise -/

/-- **A dead watch is acknowledged**, if there was room for its last record when it was dropped.  As long
as the table has the handle, the watch is live, or its last record waits to be read or to be
dispatched, or the watcher is being wound up.  And once the watch is dead, the reader and the calls can
have the handle leave the table, so that a removal that waits for it returns. -/
theorem dead_watch_acknowledged {settings : Settings} {tree : Tree} {limit : Nat}
    (spared : Leads (Spared h) (start settings tree limit) s) :
    (∀ p w, s.table.entry? p = some w → w.handle = h →
      s.notifier.isLive h = true ∨ Notifier.lastRecord h ∈ s.pending ∨ s.WindsUp) ∧
    (s.notifier.isLive h = false → ∃ t, Leads Tending s t ∧ t.table.resolve? h = none) ∧
    ∀ (i : Nat) p, s.calls[i]? = some (.remove p (.inside (.waiting h))) →
      s.table.owns p.normalize h = true →
      (Notifier.lastRecord h ∈ s.pending ∨ s.WindsUp) ∧
        ∃ t, Leads Tending s t ∧ t.calls[i]? = some (.remove p (.returned (.ok ()))) := by
  have hs : Reachable s := ⟨settings, tree, limit, spared.anything⟩
  have attended : s.Attended h := by
    refine attended_of_leads ⟨settings, tree, limit, .refl⟩ ?_ spared
    rintro (hheld | hresolve)
    · cases hheld
    · exact absurd rfl hresolve
  have hvacates : s.notifier.isLive h = false → s.table.resolve? h ≠ none →
      s.Noticed h ∧ ∃ t, s.Vacates h t := by
    intro hdead hresolve
    have noticed : s.Noticed h := by
      rcases attended (.inr hresolve) with live | noticed
      · rw [hdead] at live
        cases live
      · exact noticed
    obtain ⟨t, ht, free, hnoticed, hwaiting⟩ := exists_tableFree hs noticed
    obtain ⟨u, vacates⟩ := exists_vacates (hs.leads ht) free hnoticed
    exact ⟨noticed, u, .after ht hwaiting vacates⟩
  refine ⟨?_, ?_, ?_⟩
  · rintro p w hentry rfl
    obtain ⟨q, hq, -⟩ := (hs.ordered.paired.resolve?_iff p w.handle).mpr ⟨w, hentry, rfl⟩
    exact attended (.inr (by rw [hq]; exact nofun))
  · intro hdead
    by_cases hresolve : s.table.resolve? h = none
    · exact ⟨s, .refl, hresolve⟩
    · obtain ⟨-, t, vacates⟩ := hvacates hdead hresolve
      exact ⟨t, vacates.leads, vacates.unresolved⟩
  · intro i p stage howns
    obtain ⟨q, hq, -⟩ := WatchTable.owns_iff.mp howns
    obtain ⟨noticed, t, vacates⟩ := hvacates (spent_of_waiting hs stage).dead
      (by rw [hq]; exact nofun)
    obtain ⟨u, hfire, hreturned⟩ := returns_of_unresolved vacates.free vacates.sleepers
      vacates.unresolved (vacates.waiting i p stage)
    exact ⟨noticed, u, .step vacates.leads (.inr (.inr ⟨i, rfl⟩)) hfire, hreturned⟩

/-- A run in which there is room whenever the watch of a handle is dropped. -/
def sparedRun (h : Handle) : Interplay → List Move → Option Interplay
  | s, [] => some s
  | s, m :: rest => (s.fire m).bind fun t =>
    if s.notifier.queue.length < s.notifier.limit ∨ t.notifier.isLive h = s.notifier.isLive h then
      sparedRun h t rest
    else none

theorem leads_of_sparedRun {moves : List Move} (hrun : sparedRun h s moves = some t) :
    Leads (Spared h) s t := by
  induction moves generalizing s with
  | nil =>
    cases hrun
    exact .refl
  | cons m rest ih =>
    obtain ⟨v, hfire, hrest⟩ := Option.bind_eq_some_iff.mp hrun
    split at hrest
    · rename_i hroom
      have hspared : Spared h s m := by
        intro w hw _ live dead
        rw [hfire, Option.some.injEq] at hw
        subst hw
        refine hroom.resolve_right fun hsame => ?_
        rw [live, dead] at hsame
        cases hsame
      exact (Leads.step .refl hspared hfire : Leads (Spared h) s v).trans (ih hrest)
    · cases hrest

/-- A directory is registered. -/
def settledIn : List Move :=
  .begin (.add ⟨[dot]⟩ (.new .remove) .arriving) :: List.replicate 5 (.call 0)

/-- A deletion in it is queued. -/
def stirred : Move := .queue ⟨⟨1⟩, Mask.delete, 0, some [0x61]⟩

/-- It is being removed, and the kernel has dropped the watch. -/
def leftAlone : List Move := .begin (.remove ⟨[dot]⟩ .arriving) :: List.replicate 4 (.call 1)

/-- One of three records is lost, but the last record of the watch is not. -/
theorem dead_watch_acknowledged_lossy : ∃ s : Interplay,
    sparedRun ⟨1⟩ (start .default .fresh 2)
      (settledIn ++ [stirred, stirred, stirred, .reader] ++ leftAlone) = some s ∧
    .ok Notifier.lost ∈ s.batch ∧ s.table.owns ⟨[dot]⟩ ⟨1⟩ = true ∧ s.notifier.isLive ⟨1⟩ = false ∧
    (Notifier.lastRecord ⟨1⟩ ∈ s.pending ∨ s.WindsUp) ∧
    ∃ t, Leads Tending s t ∧ t.calls[1]? = some (.remove ⟨[dot]⟩ (.returned (.ok ()))) := by
  have hvalues : (sparedRun ⟨1⟩ (start .default .fresh 2)
      (settledIn ++ [stirred, stirred, stirred, .reader] ++ leftAlone)).map (fun s =>
        (s.batch.getLast?, s.table.owns ⟨[dot]⟩ ⟨1⟩, s.notifier.isLive ⟨1⟩, s.calls[1]?))
      = some (some (.ok Notifier.lost), true, false,
          some (.remove ⟨[dot]⟩ (.inside (.waiting ⟨1⟩)))) := by cbv
  obtain ⟨s, hs, hvalues⟩ := Option.map_eq_some_iff.mp hvalues
  simp only [Prod.mk.injEq] at hvalues
  obtain ⟨hlost, howns, hdead, hwaiting⟩ := hvalues
  obtain ⟨-, -, hremovals⟩ := dead_watch_acknowledged (leads_of_sparedRun hs)
  obtain ⟨hnoticed, hreturns⟩ := hremovals 1 ⟨[dot]⟩ hwaiting howns
  exact ⟨s, hs, List.mem_of_getLast? hlost, howns, hdead, hnoticed, hreturns⟩

/-- A read that reports the end of a watch behind a record that breaks off. -/
def garbled : Bytes :=
  (⟨⟨1⟩, Mask.deleteSelf, 0, none⟩ : Record).kernelBytes ++
    (Record.wordBytes 1 ++ Record.wordBytes Mask.create ++ Record.wordBytes 0 ++
      Record.wordBytes 256) ++
    (Notifier.lastRecord ⟨1⟩).kernelBytes

/-- A reader that watches one directory. -/
def watchingDot : Reader :=
  { Reader.fresh with table := WatchTable.empty.insert ⟨[dot]⟩ ⟨⟨1⟩, Mask.deleteSelf⟩ }

/-- **Where a dead watch is not acknowledged.**  The queue is full when a removal has the watch dropped.
The record of the loss takes the place of the last record, the reader passes it on and forgets it, and
the removal, which waits without a limit, sleeps for ever: nobody has a step to make.  A last record
that stands behind one that breaks off in a read is not seen either. -/
theorem dead_watch_not_acknowledged : ∃ s : Interplay,
    (start .default .fresh 1).run
      (settledIn ++ [stirred] ++ leftAlone ++ [.call 1] ++ List.replicate 10 .reader) = some s ∧
    s.calls[1]? = some (.remove ⟨[dot]⟩ (.inside (.waiting ⟨1⟩))) ∧
    s.watcher.settings.removeTimeout? = none ∧
    s.table.owns ⟨[dot]⟩ ⟨1⟩ = true ∧ s.notifier.isLive ⟨1⟩ = false ∧ s.pending = [] ∧
    ¬ s.WindsUp ∧ (∀ m, Tending s m → s.fire m = none) ∧
    (watchingDot.read (fun _ => true) garbled).1 = true ∧
    (watchingDot.read (fun _ => true) garbled).2.table.owns ⟨[dot]⟩ ⟨1⟩ = true := by
  have hvalues : ((start .default .fresh 1).run
      (settledIn ++ [stirred] ++ leftAlone ++ [.call 1] ++ List.replicate 10 .reader)).map (fun s =>
        (s.reading, s.batch, s.notifier.queue, s.calls, s.sleepers, s.descriptorOpen,
          s.watcher.reader.closing, s.watcher.settings.removeTimeout?,
          s.table.owns ⟨[dot]⟩ ⟨1⟩, s.notifier.isLive ⟨1⟩))
      = some (.polling, [], [], [.add ⟨[dot]⟩ (.new .remove) (.returned (.ok ())),
          .remove ⟨[dot]⟩ (.inside (.waiting ⟨1⟩))], [1], true, false, none, true, false) := by cbv
  obtain ⟨s, hs, hvalues⟩ := Option.map_eq_some_iff.mp hvalues
  simp only [Prod.mk.injEq] at hvalues
  obtain ⟨hand, hbatch, hqueue, hcalls, hsleepers, hopen, hclosing, hpatient, howns, hdead⟩ := hvalues
  refine ⟨s, hs, by rw [hcalls]; rfl, hpatient, howns, hdead, ?_, ?_, ?_, by cbv, by cbv⟩
  · rw [pending, taken, hand, hbatch, hqueue]
    rfl
  · unfold WindsUp
    rw [hand, hopen]
    decide
  · rintro m (rfl | rfl | ⟨i, rfl⟩)
    · simp [fire, fireReader, hand, fetch, hbatch, hqueue]
    · simp [fire, fireGiveUp, hclosing]
    · simp only [fire, fireCall, hcalls]
      rcases i with _ | _ | i
      · rfl
      · simp [fireRemove, hsleepers]
      · rfl

end Interplay

end FileWatch
