import FileWatch.Proofs.Interplay.Stages
import FileWatch.Proofs.Interplay.Steady

/-!
# A lone caller is served from its holdings

Between two calls of a lone caller the table stands for what the caller holds (`Holds`).  A call goes
through several stages, with steady moves of others between them; what each stage knows is told by
`Tells`.

A registration changes the holdings in its last step.  Up to then the table stands for what was held
before, so the stages carry what the holdings demand and what the verdict was.

A removal changes them as soon as it has the kernel drop the watch.  From then on the holdings are those
of the table without the handle, and it does not matter when the pair leaves the table (`Waits`).  It
does, for the last record of the handle waits until then.
-/

namespace FileWatch

namespace Interplay

variable {s t u : Interplay} {m : Move} {script : List Errand} {h : Holdings} {q : Errand} {i : Nat}
  {c c' : Call} {find : Bool → Path → Except Errno Inode} {p : Path} {g : Handle}

/-! ## Stages -/

/-- The table stands for what is held, and nobody sleeps. -/
structure Holds (s : Interplay) (h : Holdings) : Prop where
  stands : s.table.Stands s.notifier h
  awake : s.sleepers = []

/-- A removal waits.  Its path holds nothing any more; its pair has left the table, or the record that
will take it out waits. -/
structure Waits (s : Interplay) (h : Holdings) (p : Path) (g : Handle) : Prop where
  held : h.held.contains p.normalize = true
  stands : (s.table.without [g]).Stands s.notifier (h.drop p.normalize)
  dead : s.notifier.isLive g = false
  pair : (s.table.resolve? g = none ∧ s.sleepers = []) ∨
    (s.table.owns p.normalize g = true ∧ Notifier.lastRecord g ∈ s.pending)

/-- What the stage of a call tells, when the caller held this before the call. -/
inductive Tells (find : Bool → Path → Except Errno Inode) (h : Holdings) (s : Interplay) :
    Errand → Call → Prop
  | early {q : Errand} {c : Call} (early : c.isEarly = true) (holds : s.Holds h) :
    Tells find h s q c
  | asking {p : Path} {o : WatchOptions} {refused : Option Errno} (holds : s.Holds h) :
    Tells find h s (.add p o refused) (.add p o (.inside
      (.asking (h.wanted p.normalize o.flags) (h.held.contains p.normalize))))
  | refused {p : Path} {o : WatchOptions} {refused : Option Errno} {wanted : Mask} {cause : Cause}
    (holds : s.Holds h) (verdict : Holdings.verdict find p.normalize
      (h.wanted p.normalize o.flags) refused = .error cause) :
    Tells find h s (.add p o refused)
      (.add p o (.inside (.told wanted (.error (.registration p.normalize cause)))))
  | granted {p : Path} {o : WatchOptions} {refused : Option Errno} {inode : Inode} {g : Handle}
    (holds : s.Holds h) (verdict : Holdings.verdict find p.normalize
      (h.wanted p.normalize o.flags) refused = .ok inode) (watches : s.notifier.Watches g inode) :
    Tells find h s (.add p o refused)
      (.add p o (.inside (.told (h.wanted p.normalize o.flags) (.ok g))))
  | found {p : Path} {g : Handle} (holds : s.Holds h)
    (finds : s.table.handleOf? p.normalize = some g) :
    Tells find h s (.remove p) (.remove p (.inside (.found g)))
  | waiting {p : Path} {g : Handle} (waits : s.Waits h p g) :
    Tells find h s (.remove p) (.remove p (.inside (.waiting g)))
  | returned {q : Errand} {c : Call} (outcome : c.outcome? = some (h.serve find q).1)
    (holds : s.Holds (h.serve find q).2) : Tells find h s q c

theorem Tells.of_returned (tells : Tells find h s q c) (hreturned : c.hasReturned = true) :
    c.outcome? = some (h.serve find q).1 ∧ s.Holds (h.serve find q).2 := by
  cases tells with
  | early early _ =>
    unfold Call.isEarly at early
    split at early <;> first | cases hreturned | cases early
  | asking | refused | granted | found | waiting => cases hreturned
  | returned outcome holds => exact ⟨outcome, holds⟩

/-! ## Moves of others -/

/-- What others do is seen in the table, if at all, as a handle less that is not live. -/
theorem around_of_fire (hs : Reachable s) (calm : s.Calm find) (tame : Tame s m)
    (hfire : s.fire m = some t) (hm : m.caller? = none) :
    t.notifier.watches = s.notifier.watches ∧ t.notifier.granted = s.notifier.granted ∧
      (t.table = s.table ∧ t.sleepers ⊆ s.sleepers ∨ ∃ g, s.notifier.isLive g = false ∧
        t.table = s.table.without [g] ∧ t.sleepers = []) := by
  obtain ⟨heffect, htouches⟩ := effect_of_fire hs.legible hfire
  have hsleepers : t.sleepers ⊆ s.sleepers := by
    cases htouches with
    | none _ _ sleepers => exact sleepers
    | newcomer _ _ _ _ _ _ sleepers => exact sleepers
    | one i c c' mover _ _ =>
      rw [hm] at mover
      cases mover
  have hnotifier : t.notifier = t.core.notifier := rfl
  have htable : t.table = t.core.table := rfl
  cases calm.drift hs.ordered tame heffect with
  | around _ core =>
    rw [hnotifier, htable, core]
    exact ⟨rfl, rfl, .inl ⟨rfl, hsleepers⟩⟩
  | purge r hand last woken core =>
    rw [hnotifier, htable, core]
    have hspent := hs.ordered.spent r (mem_pending hand rfl) last
    exact ⟨rfl, rfl, .inr ⟨r.handle, hspent.dead, rfl, woken⟩⟩
  | called i mover _ _ =>
    rw [hm] at mover
    cases mover

theorem watches_of_eq (hwatches : t.notifier.watches = s.notifier.watches) {i : Inode}
    (h : s.notifier.Watches g i) : t.notifier.Watches g i := by
  unfold Notifier.Watches at h ⊢
  rw [hwatches]
  exact h

theorem isLive_of_eq (hwatches : t.notifier.watches = s.notifier.watches) (g : Handle) :
    t.notifier.isLive g = s.notifier.isLive g := by
  unfold Notifier.isLive
  rw [hwatches]

/-- When a reader at work is done with the last record of a handle, the table has nothing under it. -/
theorem resolved_of_dispatches (ordered : s.Ordered) (working : s.reading.Working)
    (hdispatches : s.Dispatches (Notifier.lastRecord g) t) :
    t.table.resolve? g = none ∧ t.sleepers = [] := by
  obtain ⟨hrecord, hfire, -⟩ := hdispatches
  have hand := working.eq_taken hrecord (Notifier.lastRecord_isLast g)
  obtain ⟨-, rfl⟩ := (readerStep_of_fire hand hfire).of_lastRecord
  refine ⟨?_, rfl⟩
  show (s.table.removeHandle g).2.resolve? g = none
  rw [ordered.paired.removeHandle_eq, WatchTable.resolve?_without,
    if_pos (List.mem_singleton_self g)]

section Around

variable (hs : Reachable s) (calm : s.Calm find) (steady : Steady script s m)
  (hfire : s.fire m = some t) (hm : m.caller? = none)

include hs calm steady hfire hm

theorem Holds.around (holds : s.Holds h) : t.Holds h := by
  obtain ⟨hwatches, -, htable⟩ := around_of_fire hs calm steady.tame hfire hm
  have hsame := holds.stands.mono fun _ _ _ hw => watches_of_eq hwatches hw
  rcases htable with ⟨htable, hsleepers⟩ | ⟨g, dead, htable, woken⟩
  · refine ⟨htable ▸ hsame, ?_⟩
    rw [holds.awake] at hsleepers
    exact List.subset_nil.mp hsleepers
  · rw [← isLive_of_eq hwatches] at dead
    exact ⟨htable ▸ hsame.without_dead dead, woken⟩

theorem Holds.handleOf?_around (holds : s.Holds h) (finds : s.table.handleOf? p = some g) :
    t.table.handleOf? p = some g := by
  obtain ⟨-, -, htable⟩ := around_of_fire hs calm steady.tame hfire hm
  rcases htable with ⟨htable, -⟩ | ⟨g', dead, htable, -⟩
  · rw [htable]
    exact finds
  · have hne : g ≠ g' := by
      rintro rfl
      rw [holds.stands.isLive finds] at dead
      cases dead
    rw [htable, WatchTable.handleOf?_without, finds, Option.filter_some]
    simp [hne]

theorem Waits.around (waits : s.Waits h p g) : t.Waits h p g := by
  obtain ⟨hwatches, -, htable⟩ := around_of_fire hs calm steady.tame hfire hm
  obtain ⟨held, stands, dead, pair⟩ := waits
  refine ⟨held, ?_, isLive_of_eq hwatches g ▸ dead, ?_⟩
  · have hsame := stands.mono fun _ _ _ hw => watches_of_eq hwatches hw
    rcases htable with ⟨htable, -⟩ | ⟨g', dead', htable, -⟩
    · exact htable ▸ hsame
    · rw [htable, WatchTable.without_comm]
      exact hsame.without_dead ((isLive_of_eq hwatches g').trans dead')
  · rcases pair with ⟨hresolved, hawake⟩ | ⟨howns, hwaits⟩
    · left
      rcases htable with ⟨htable, hsleepers⟩ | ⟨g', -, htable, woken⟩
      · rw [hawake] at hsleepers
        exact ⟨htable ▸ hresolved, List.subset_nil.mp hsleepers⟩
      · rw [htable, WatchTable.resolve?_without, hresolved]
        exact ⟨ite_self _, woken⟩
    · rcases pending_or_dispatches hs hfire calm.atWork.running calm.atWork.unclosed hwaits
        with hstill | hdispatches
      · rcases htable with ⟨htable, -⟩ | ⟨g', -, htable, woken⟩
        · exact .inr ⟨htable ▸ howns, hstill⟩
        · by_cases hne : g = g'
          · rw [htable, WatchTable.resolve?_without, hne, if_pos (List.mem_singleton_self g')]
            exact .inl ⟨rfl, woken⟩
          · exact .inr ⟨htable ▸ owns_without hne howns, hstill⟩
      · exact .inl (resolved_of_dispatches hs.ordered calm.working hdispatches)

/-- **What a stage tells stays true** when others move. -/
theorem Tells.around (tells : Tells find h s q c) : Tells find h t q c := by
  have hholds : ∀ {h}, s.Holds h → t.Holds h := fun holds => holds.around hs calm steady hfire hm
  obtain ⟨hwatches, -, -⟩ := around_of_fire hs calm steady.tame hfire hm
  cases tells with
  | early early holds => exact .early early (hholds holds)
  | asking holds => exact .asking (hholds holds)
  | refused holds verdict => exact .refused (hholds holds) verdict
  | granted holds verdict watches =>
    exact .granted (hholds holds) verdict (watches_of_eq hwatches watches)
  | found holds finds =>
    exact .found (hholds holds) (holds.handleOf?_around hs calm steady hfire hm finds)
  | waiting waits => exact .waiting (waits.around hs calm steady hfire hm)
  | returned outcome holds => exact .returned outcome (hholds holds)

end Around

/-! ## Moves of the caller -/

/-- A call that knocks is not refused. -/
theorem Calm.knock {σ ρ : Type} {free : Bool} {entry : σ} {refusal : ρ}
    {progress next : Progress σ ρ} (calm : s.Calm find)
    (hnext : progress.knock s.watcher free entry refusal = some next) :
    progress = .arriving ∧ next = .heard ∨ progress = .heard ∧ next = .inside entry := by
  rcases Progress.knock_cases hnext with ⟨hat, -, hheard⟩ | ⟨hat, -, -, hinside⟩ | ⟨hrefused, -⟩
  · exact .inl ⟨hat, hheard⟩
  · exact .inr ⟨hat, hinside⟩
  · rcases hrefused with ⟨-, hrunning⟩ | ⟨-, -, hclosed⟩
    · rw [calm.atWork.running] at hrunning
      cases hrunning
    · rw [calm.phase] at hclosed
      cases hclosed

/-- The next stage of a call. -/
def Goes (find : Bool → Path → Except Errno Inode) (h : Holdings) (q : Errand) (i : Nat)
    (s t : Interplay) : Prop := ∃ c, t.calls = s.calls.set i c ∧ Tells find h t q c

/-- A call that has yet to look at the table knocks, or looks. -/
theorem tells_of_early (calm : s.Calm find) (request : c.request = q.call.request)
    (early : c.isEarly = true) (holds : s.Holds h) (step : s.CallStep i m c c' u) :
    Tells find h (u.put i c') q c' := by
  have hput : ∀ d, (s.put i d).Holds h := fun d => ⟨holds.stands, holds.awake⟩
  cases step with
  | addKnocks knock | removeKnocks knock | listKnocks knock =>
    rcases calm.knock knock with ⟨-, rfl⟩ | ⟨-, rfl⟩
    · exact .early rfl (hput _)
    · exact .early rfl (hput _)
  | addLooks free demand =>
    cases q with
    | add q o' refused =>
      cases request
      cases (holds.stands.demand_eq _ _).symm.trans demand
      exact .asking (hput _)
    | remove | list => cases request
  | removeMisses free missing =>
    rename_i p
    cases q with
    | remove q =>
      cases request
      have hcontains := holds.stands.contains_eq p.normalize
      have hnone : s.table.entry? p.normalize = none := by
        simpa [WatchTable.handleOf?] using missing
      rw [hnone] at hcontains
      refine .returned ?_ ?_
      · simp [Call.outcome?, Holdings.serve, hcontains]
      · simp only [Holdings.serve, hcontains, Option.isSome_none, Bool.false_eq_true, if_false]
        exact hput _
    | add | list => cases request
  | removeFinds free found =>
    cases q with
    | remove q =>
      cases request
      exact .found (hput _) found
    | add | list => cases request
  | listReads =>
    cases q with
    | list =>
      refine .returned ?_ (hput _)
      rw [Call.outcome?, holds.stands.paths_eq]
      rfl
    | add | remove => cases request
  | _ => cases early

/-- Whether a link is followed is up to what is wanted. -/
theorem has_dontFollow_armed (wanted : Mask) (known : Bool) :
    (armed wanted known).has Mask.dontFollow = wanted.has Mask.dontFollow := by
  have hadd : Mask.maskAdd.has Mask.dontFollow = false := by decide
  unfold armed
  split
  · rw [Mask.has_or, hadd, Bool.or_false]
  · rfl

/-- The kernel has no watch for a registration, as the script says. -/
theorem tells_of_refused {o : WatchOptions} {refused : Option Errno} {e : Errno} {wanted : Mask}
    (next : script[i]? = some (.add p o refused)) (steady : Steady script s (.refuse i e))
    (holds : t.Holds h) (sound : p.normalize.bytes.contains 0 = false) :
    Tells find h t (.add p o refused)
      (.add p o (.inside (.told wanted (.error (.registration p.normalize (.errno e)))))) := by
  have hrefused : refused = some e := by
    cases steady with
    | refuse decided =>
      rw [next, Option.some.injEq, Errand.add.injEq] at decided
      exact decided.2.2
  refine .refused holds ?_
  -- A path with a zero byte does not get to the kernel, so it is not refused.
  have hnul : p.normalize.bytes.findIdx? (· == 0) = none := by
    rw [List.findIdx?_eq_none_iff]
    intro b hb
    have := List.any_eq_false.mp (List.contains_eq_any_beq.symm.trans sound) b hb
    simpa [BEq.comm] using this
  unfold Holdings.verdict
  rw [hnul, hrefused]

/-- A registration asks the kernel for what the holdings demand. -/
theorem tells_of_asking {o : WatchOptions} {refused : Option Errno} (calm : s.Calm find)
    (stage : s.calls[i]? = some (.add p o (.inside
      (.asking (h.wanted p.normalize o.flags) (h.held.contains p.normalize)))))
    (next : script[i]? = some (.add p o refused)) (steady : Steady script s m) (holds : s.Holds h)
    (step : s.CallStep i m (.add p o (.inside
      (.asking (h.wanted p.normalize o.flags) (h.held.contains p.normalize)))) c' u) :
    Tells find h (u.put i c') (.add p o refused) c' := by
  -- The kernel is told to add to what it watches for, where a handle is held; the verdict is the same.
  generalize hflags : armed (h.wanted p.normalize o.flags) (h.held.contains p.normalize) = flags
  have hknown : flags.has Mask.known = (h.wanted p.normalize o.flags).has Mask.known := by
    subst hflags
    unfold armed
    split
    · rename_i hheld
      rw [Mask.has_or, holds.stands.known_wanted hheld]
      rfl
    · rfl
  have hfollow : flags.has Mask.dontFollow = (h.wanted p.normalize o.flags).has Mask.dontFollow :=
    hflags ▸ has_dontFollow_armed _ _
  cases step with
  | addKnocks knock => cases knock
  | addRefused e _ sound => exact tells_of_refused next steady ⟨holds.stands, holds.awake⟩ sound
  | addAsks answer =>
    have hdecided : p.normalize.bytes.contains 0 = false →
        refused = s.watcher.kernel.shortage? p.normalize flags := by
      intro hno
      cases steady with
      | call decided _ =>
        have hscript := decided stage hno
        rw [← armed, next, Option.some.injEq, Errand.add.injEq, hflags] at hscript
        exact hscript.2.2
    rw [hflags] at answer
    rcases s.watcher.arm_eq calm.atWork.isOpen hknown hfollow hdecided
      with ⟨cause, hverdict, harm⟩ | ⟨inode, g, hverdict, hgrant, harm⟩
    · rw [calm.tree] at hverdict
      cases harm.symm.trans answer
      exact .refused ⟨holds.stands, holds.awake⟩ hverdict
    · rw [calm.tree] at hverdict
      cases harm.symm.trans answer
      obtain ⟨hnew, hold⟩ := Notifier.watches_grant hgrant
      exact .granted ⟨holds.stands.mono fun _ _ _ hw => hold hw, holds.awake⟩ hverdict hnew

/-- A registration that was granted what it asked for stores it. -/
theorem holds_of_granted {o : WatchOptions} {refused : Option Errno} {inode : Inode}
    (ordered : s.Ordered) (holds : s.Holds h) (verdict : Holdings.verdict find p.normalize
      (h.wanted p.normalize o.flags) refused = .ok inode) (watches : s.notifier.Watches g inode) :
    (s.withWatcher (s.watcher.withTable (s.table.insert p.normalize
      ⟨g, h.wanted p.normalize o.flags⟩))).Holds (h.serve find (.add p o refused)).2 := by
  simp only [Holdings.serve, verdict]
  exact ⟨holds.stands.insert ordered.paired ordered.sound
    ⟨rfl, Holdings.known_of_verdict verdict, watches⟩, holds.awake⟩

/-- A removal has the kernel drop the watch of its path. -/
theorem waits_of_found (ordered : s.Ordered) (holds : s.Holds h)
    (finds : s.table.handleOf? p.normalize = some g)
    (room : s.notifier.queue.length < s.notifier.limit) :
    (s.withWatcher { s.watcher with kernel := (s.watcher.kernel.unwatch g).2 }).Waits h p g := by
  obtain ⟨w, hw, -⟩ := WatchTable.handleOf?_eq_some_iff.mp finds
  refine ⟨?_, ?_, ?_, .inr ⟨(ordered.paired _ _).mpr finds, ?_⟩⟩
  · rw [holds.stands.contains_eq, hw]
    rfl
  · exact (holds.stands.without_handle ordered.paired finds).revoke
  · show (s.notifier.revoke g).2.isLive g = false
    rw [Notifier.isLive_revoke]
    simp
  · have hqueue := Notifier.queue_revoke_of_room (holds.stands.isLive finds) room
    refine List.mem_append_right _ ?_
    show _ ∈ (s.notifier.revoke g).2.queue
    rw [hqueue]
    exact List.mem_append_right _ (List.mem_singleton_self _)

/-- What a removal gets when its pair has left the table. -/
theorem tells_of_resolved (waits : s.Waits h p g) (paired : s.table.Paired)
    (hresolved : s.table.resolve? g = none) (hawake : s.sleepers = []) :
    Tells find h s (.remove p) (.remove p (.returned (.ok ()))) := by
  have hstands := waits.stands
  rw [paired.without_of_unresolved hresolved] at hstands
  refine .returned ?_ ?_
  · simp only [Call.outcome?, Holdings.serve, waits.held, if_true]
  · simp only [Holdings.serve, waits.held, if_true]
    exact ⟨hstands, hawake⟩

theorem Waits.put (waits : s.Waits h p g) (c : Call) : (s.put i c).Waits h p g :=
  ⟨waits.held, waits.stands, waits.dead, waits.pair⟩

theorem Waits.resolved_of_owns (waits : s.Waits h p g) (howns : s.table.owns p.normalize g = false) :
    s.table.resolve? g = none ∧ s.sleepers = [] := by
  rcases waits.pair with hresolved | ⟨hyes, -⟩
  · exact hresolved
  · rw [howns] at hyes
    cases hyes

/-- A removal that waits looks at the table, and returns or sleeps.  When its time is up, it takes its
pair out of the table itself. -/
theorem tells_of_waiting (ordered : s.Ordered) (waits : s.Waits h p g)
    (step : s.CallStep i m (.remove p (.inside (.waiting g))) c' u) :
    Tells find h (u.put i c') (.remove p) c' := by
  cases step with
  | removeKnocks knock => cases knock
  | removeConfirmed _ _ gone =>
    obtain ⟨hresolved, hawake⟩ := waits.resolved_of_owns gone
    exact tells_of_resolved (waits.put _) ordered.paired hresolved hawake
  | removeSleeps _ _ owns =>
    refine .waiting ⟨waits.held, waits.stands, waits.dead, ?_⟩
    rcases waits.pair with ⟨hresolved, -⟩ | hwaits
    · rw [WatchTable.owns, hresolved] at owns
      cases owns
    · exact .inr hwaits
  | removeTimesOut _ asleep _ gone =>
    -- A sleeper whose pair is gone would have been woken.
    obtain ⟨-, hawake⟩ := waits.resolved_of_owns gone
    rw [hawake] at asleep
    cases asleep
  | removeForces =>
    rw [ordered.paired.removeHandle_eq]
    have hresolved : (s.table.without [g]).resolve? g = none := by
      rw [WatchTable.resolve?_without, if_pos (List.mem_singleton_self g)]
    have hwaits : (s.purged (s.table.without [g])).Waits h p g :=
      ⟨waits.held, waits.stands.without_dead waits.dead, waits.dead, .inl ⟨hresolved, rfl⟩⟩
    exact tells_of_resolved (hwaits.put _) (ordered.paired.without [g]) hresolved rfl

/-- **What a stage tells stays true when the call itself moves.** -/
theorem goes_of_fire (hs : Reachable s) (calm : s.Calm find) (lone : s.Lone i c)
    (next : script[i]? = some q) (request : c.request = q.call.request)
    (tells : Tells find h s q c) (steady : Steady script s m) (mover : m.caller? = some i)
    (hfire : s.fire m = some t) : Goes find h q i s t := by
  obtain ⟨c', u, step, rfl⟩ := callStep_of_fire lone.stage mover hfire
  refine ⟨c', by rw [put, step.calls], ?_⟩
  cases tells with
  | early early holds => exact tells_of_early calm request early holds step
  | asking holds => exact tells_of_asking calm lone.stage next steady holds step
  | refused holds verdict =>
    cases step with
    | addKnocks knock => cases knock
    | addFails =>
      refine .returned ?_ ?_
      · simp only [Call.outcome?, Holdings.serve, verdict]
      · simp only [Holdings.serve, verdict]
        exact ⟨holds.stands, holds.awake⟩
  | granted holds verdict watches =>
    cases step with
    | addKnocks knock => cases knock
    | addStores =>
      obtain ⟨stands, awake⟩ := holds_of_granted hs.ordered holds verdict watches
      refine .returned ?_ ⟨stands, awake⟩
      simp only [Call.outcome?, Holdings.serve, verdict]
  | found holds finds =>
    cases step with
    | removeKnocks knock => cases knock
    | removeAsks =>
      -- Without room the last record would be lost, and the removal would wait for nothing.
      have hroom : s.notifier.queue.length < s.notifier.limit := by
        cases steady with
        | call _ room => exact room lone.stage
      exact .waiting ((waits_of_found hs.ordered holds finds hroom).put _)
    | removeShutOut shut =>
      have hopen : s.descriptorOpen = true := calm.atWork.isOpen
      rw [shut] at hopen
      cases hopen
  | waiting waits => exact tells_of_waiting hs.ordered waits step
  | returned outcome =>
    have hreturned : c.hasReturned = true := by
      rw [← c.isSome_outcome?, outcome]
      rfl
    rw [fire_returned lone.stage hreturned mover] at hfire
    cases hfire

/-! ## A whole script -/

/-- The same when a call was made. -/
def withCall (s : Interplay) (c : Call) : Interplay := { s with calls := s.calls ++ [c] }

/-- The calls made so far are the errands of the script, one after the other; all but the last have got
what the holdings say, and the last one knows what its stage tells. -/
structure Served (find : Bool → Path → Except Errno Inode) (script : List Errand)
    (s : Interplay) : Prop where
  calm : s.Calm find
  initial : s.calls = [] → s.Holds .empty
  requests : ∀ {i : Nat} {c : Call}, s.calls[i]? = some c →
    ∃ q, script[i]? = some q ∧ c.request = q.call.request
  earlier : ∀ {i : Nat} {c : Call} {q : Errand}, s.calls[i]? = some c → script[i]? = some q →
    i + 1 ≠ s.calls.length → c.outcome? = some ((Holdings.after find script i).serve find q).1
  latest : ∀ {i : Nat} {c : Call} {q : Errand}, s.calls[i]? = some c → script[i]? = some q →
    i + 1 = s.calls.length → Tells find (Holdings.after find script i) s q c

theorem served_start (settings : Settings) (tree : Tree) {limit : Nat} (hlimit : 0 < limit)
    (script : List Errand) : (start settings tree limit).Served tree.find script :=
  ⟨calm_start settings tree hlimit, fun _ => ⟨WatchTable.stands_empty _, rfl⟩, nofun, nofun, nofun⟩

namespace Served

/-- Every call that has returned has got what the holdings say. -/
theorem outcome (served : s.Served find script) (hc : s.calls[i]? = some c)
    (hreturned : c.hasReturned = true) (hq : script[i]? = some q) :
    c.outcome? = some ((Holdings.after find script i).serve find q).1 := by
  by_cases hlast : i + 1 = s.calls.length
  · exact ((served.latest hc hq hlast).of_returned hreturned).1
  · exact served.earlier hc hq hlast

/-- When all calls have returned, the table stands for what is held after them. -/
theorem holds (served : s.Served find script) (idle : s.allReturned = true) :
    s.Holds (Holdings.after find script s.calls.length) := by
  rcases hlength : s.calls.length with _ | n
  · exact served.initial (List.length_eq_zero_iff.mp hlength)
  · have hn : s.calls[n]? = some s.calls[n] := List.getElem?_eq_getElem (by omega)
    obtain ⟨q, hq, -⟩ := served.requests hn
    have hreturned := List.all_eq_true.mp idle _ (List.mem_of_getElem? hn)
    rw [Holdings.after_succ find hq]
    exact ((served.latest hn hq hlength.symm).of_returned hreturned).2

/-- A call that has not returned is the last one, and alone. -/
theorem lone (served : s.Served find script) (hc : s.calls[i]? = some c)
    (hopen : c.hasReturned = false) : i + 1 = s.calls.length ∧ s.Lone i c := by
  have hreturned : ∀ {j d}, s.calls[j]? = some d → j + 1 ≠ s.calls.length → d.hasReturned = true := by
    intro j d hd hj
    obtain ⟨q, hq, -⟩ := served.requests hd
    rw [← d.isSome_outcome?, served.earlier hd hq hj]
    rfl
  have hlast : i + 1 = s.calls.length := by
    by_contra hne
    rw [hreturned hc hne] at hopen
    cases hopen
  exact ⟨hlast, hc, fun hd hj => hreturned hd (by omega)⟩

theorem of_begin (served : s.Served find script) (calm : (s.withCall q.call).Calm find)
    (idle : s.allReturned = true) (next : script[s.calls.length]? = some q) :
    (s.withCall q.call).Served find script := by
  have hlength : (s.withCall q.call).calls.length = s.calls.length + 1 := by
    rw [withCall, List.length_append, List.length_singleton]
  refine ⟨calm, fun hempty => ?_, fun hc => ?_, fun hc hq hne => ?_, fun hc hq hlast => ?_⟩
  · rw [hempty] at hlength
    cases hlength
  · rcases getElem?_concat_cases hc with hold | ⟨rfl, rfl⟩
    · exact served.requests hold
    · exact ⟨q, next, rfl⟩
  · rcases getElem?_concat_cases hc with hold | ⟨rfl, -⟩
    · exact served.outcome hold (List.all_eq_true.mp idle _ (List.mem_of_getElem? hold)) hq
    · exact absurd hlength.symm hne
  · rcases getElem?_concat_cases hc with hold | ⟨rfl, rfl⟩
    · have hi := (List.getElem?_eq_some_iff.mp hold).1
      omega
    · have holds := served.holds idle
      refine .early ?_ ⟨holds.stands, holds.awake⟩
      cases q <;> rfl

/-- **One move**, of whomever. -/
theorem of_fire (hs : Reachable s) (served : s.Served find script) (steady : Steady script s m)
    (hfire : s.fire m = some t) : t.Served find script := by
  have calm := served.calm.of_fire hs steady.tame hfire
  have htouches := (effect_of_fire hs.legible hfire).2
  cases htouches with
  | none mover calls _ =>
    refine ⟨calm, fun hempty => ?_, fun hc => ?_, fun hc hq hne => ?_, fun hc hq hlast => ?_⟩
    · exact (served.initial (calls ▸ hempty)).around hs served.calm steady hfire mover
    · exact served.requests (calls ▸ hc)
    · exact served.earlier (calls ▸ hc) hq (calls ▸ hne)
    · exact (served.latest (calls ▸ hc) hq (calls ▸ hlast)).around hs served.calm steady hfire mover
  | newcomer d mover fresh _ _ _ _ =>
    subst mover
    cases steady with
    | begin idle next =>
      rw [fire, if_pos fresh, Option.some.injEq] at hfire
      subst hfire
      exact served.of_begin calm idle next
  | one j d d' mover stage passes =>
    have hopen : d.hasReturned = false := by
      cases hreturned : d.hasReturned with
      | false => rfl
      | true =>
        rw [fire_returned stage hreturned mover] at hfire
        cases hfire
    -- So it is the last call, and what the earlier ones have got stays.
    obtain ⟨hlast, hlone⟩ := served.lone stage hopen
    obtain ⟨r, hr, hrequest⟩ := served.requests stage
    obtain ⟨e, hcalls, htells⟩ := goes_of_fire hs served.calm hlone hr hrequest
      (served.latest stage hr hlast) steady mover hfire
    have hj : j < s.calls.length := (List.getElem?_eq_some_iff.mp stage).1
    have hlength : t.calls.length = s.calls.length := by rw [hcalls, List.length_set]
    have hself : t.calls[j]? = some e := by rw [hcalls, List.getElem?_set_self hj]
    have hother : ∀ {i}, i ≠ j → t.calls[i]? = s.calls[i]? := fun hij => by
      rw [hcalls, List.getElem?_set_ne (Ne.symm hij)]
    have hsame : e.request = d.request := by
      have hpassed := passes.calls
      rw [hcalls] at hpassed
      have hd' : some e = some d' := by
        rw [← List.getElem?_set_self hj, hpassed, List.getElem?_set_self hj]
      cases hd'
      exact passes.request
    refine ⟨calm, fun hempty => ?_, fun {i c} hc => ?_, fun {i c q} hc hq hne => ?_,
      fun {i c q} hc hq hl => ?_⟩
    · rw [hempty] at hlength
      rw [← hlength] at hj
      cases hj
    · by_cases hij : i = j
      · subst hij
        rw [hself, Option.some.injEq] at hc
        exact ⟨r, hr, hc ▸ hsame.trans hrequest⟩
      · exact served.requests (hother hij ▸ hc)
    · have hij : i ≠ j := by
        rintro rfl
        exact hne (hlast.trans hlength.symm)
      exact served.earlier (hother hij ▸ hc) hq (hlength ▸ hne)
    · obtain rfl : i = j := by omega
      rw [hself, Option.some.injEq] at hc
      rw [hr, Option.some.injEq] at hq
      exact hc ▸ hq ▸ htells

/-- **A whole run.** -/
theorem of_leads (hs : Reachable s) (served : s.Served find script)
    (hst : Leads (Steady script) s t) : t.Served find script := by
  induction hst with
  | refl => exact served
  | step before steady fired ih => exact ih.of_fire (hs.leads before) steady fired

end Served

end Interplay

end FileWatch
