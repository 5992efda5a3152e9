import FileWatch.Proofs.Interplay.Order
import FileWatch.Proofs.Reader.Drops

/-!
# One party alone

The calls of a `Watcher` and the turns of its reader are made in one go, with nobody else around.  The
steps of an `Interplay` come to the same where nobody comes between them.  A call whose fellows have all
returned is `Lone`.  Left to itself it returns what the operation of the watcher answers, and leaves
the watcher as the operation does.  So does a reader that is left alone with what it has read.

A removal and a `close` need the reader, so there the two parties take turns.
-/

namespace FileWatch

namespace Interplay

variable {s t u : Interplay} {m : Move} {i : Nat} {c c' : Call}

/-- Steps of one kind of move. -/
def Only (m : Move) (_ : Interplay) (m' : Move) : Prop := m' = m

theorem Leads.only (hfire : s.fire m = some t) (htu : Leads (Only m) t u) : Leads (Only m) s u :=
  (Leads.step .refl rfl hfire).trans htu

/-! ## A lone call -/

/-- A call, when all others have returned. -/
structure Lone (s : Interplay) (i : Nat) (c : Call) : Prop where
  stage : s.calls[i]? = some c
  others : ∀ {j d}, s.calls[j]? = some d → j ≠ i → d.hasReturned = true

@[simp] theorem put_put (s : Interplay) (i : Nat) (c d : Call) :
    (s.put i c).put i d = s.put i d := by
  unfold put
  simp only [List.set_set]

@[simp] theorem withWatcher_put (s : Interplay) (i : Nat) (c : Call) (w : Watcher) :
    (s.put i c).withWatcher w = (s.withWatcher w).put i c := rfl

@[simp] theorem watcher_put (s : Interplay) (i : Nat) (c : Call) :
    (s.put i c).watcher = s.watcher := rfl

@[simp] theorem watcher_withWatcher (s : Interplay) (w : Watcher) :
    (s.withWatcher w).watcher = w := rfl

namespace Lone

theorem put (lone : s.Lone i c) (d : Call) : (s.put i d).Lone i d where
  stage := List.getElem?_set_self (List.getElem?_eq_some_iff.mp lone.stage).1
  others h hij := lone.others ((List.getElem?_set_ne (Ne.symm hij)).symm.trans h) hij

theorem withWatcher (lone : s.Lone i c) (w : Watcher) : (s.withWatcher w).Lone i c :=
  ⟨lone.stage, lone.others⟩

theorem all (lone : s.Lone i c) {free : Call → Bool}
    (returned : ∀ {d : Call}, d.hasReturned = true → free d = true) (hc : free c = true) :
    s.calls.all free = true := by
  refine List.all_eq_true.mpr fun d hd => ?_
  obtain ⟨j, hj⟩ := List.mem_iff_getElem?.mp hd
  by_cases hij : j = i
  · subst hij
    rw [lone.stage, Option.some.injEq] at hj
    exact hj ▸ hc
  · exact returned (lone.others hj hij)

theorem tableFree (lone : s.Lone i c) (h : c.holdsTable = false) : s.tableFree = true := by
  refine lone.all (fun {d} hd => ?_) (by rw [h]; rfl)
  unfold Call.hasReturned at hd
  split at hd <;> first | rfl | cases hd

theorem phaseFree (lone : s.Lone i c) (h : c.holdsPhase = false) : s.phaseFree = true := by
  refine lone.all (fun {d} hd => ?_) (by rw [h]; rfl)
  unfold Call.hasReturned at hd
  split at hd <;> first | rfl | cases hd

end Lone

theorem Leads.alone (lone : s.Lone i c) (step : s.CallStep i (.call i) c c' u)
    (htu : Leads (Only (.call i)) (u.put i c') t) : Leads (Only (.call i)) s t :=
  .only (step.fire lone.stage) htu

/-- A lone call that knocks is let in, or is refused, as the watcher is open or not. -/
theorem door_alone {σ ρ : Type} (call : Progress σ ρ → Call) (entry : σ) (refusal : ρ)
    (lone : s.Lone i (call .arriving)) (hphase : ∀ progress, (call progress).holdsPhase = false)
    (hstep : ∀ {t : Interplay} {progress next},
      progress.knock t.watcher t.phaseFree entry refusal = some next →
        t.CallStep i (.call i) (call progress) (call next) t) :
    (s.watcher.ensureOpen = .ok () ∧
      Leads (Only (.call i)) s (s.put i (call (.inside entry)))) ∨
    (s.watcher.ensureOpen = .error .closed ∧
      Leads (Only (.call i)) s (s.put i (call (.returned refusal)))) := by
  unfold Watcher.ensureOpen
  cases hrunning : s.watcher.reader.running with
  | false =>
    have hturned : Progress.arriving.knock s.watcher s.phaseFree entry refusal
        = some (.returned refusal) := by
      simp only [Progress.knock, hrunning, Bool.false_eq_true, if_false]
    exact .inr ⟨by simp, .alone lone (hstep hturned) .refl⟩
  | true =>
    have hheard : Progress.arriving.knock s.watcher s.phaseFree entry refusal = some .heard := by
      simp only [Progress.knock, hrunning, if_true]
    have lone' := lone.put (call .heard)
    have hfree := lone'.phaseFree (hphase _)
    have hled : ∀ {next}, Progress.heard.knock s.watcher true entry refusal = some next →
        Leads (Only (.call i)) s (s.put i (call next)) := by
      intro next hnext
      have hsecond := Leads.alone lone' (hstep (hfree.symm ▸ hnext)) .refl
      rw [put_put] at hsecond
      exact .alone lone (hstep hheard) hsecond
    cases hclosed : s.watcher.phase with
    | running =>
      exact .inl ⟨by simp, hled (by simp only [Progress.knock, hclosed, if_true])⟩
    | closed =>
      exact .inr ⟨by simp, hled (by simp only [Progress.knock, hclosed, reduceCtorEq, if_true,
        if_false])⟩

/-- A registration that was let in asks for the watch and stores it. -/
theorem enroll_alone {p : Path} {o : WatchOptions} (lone : s.Lone i (.add p o (.inside .admitted))) :
    Leads (Only (.call i)) s ((s.withWatcher (s.watcher.enroll p.normalize o.flags).2).put i
      (.add p o (.returned (s.watcher.enroll p.normalize o.flags).1))) := by
  rcases hdemand : s.table.demand p.normalize o.flags with ⟨wanted, known⟩
  rcases harm : s.watcher.arm p.normalize (armed wanted known) with ⟨granted, kernel⟩
  have lone' := lone.put (.add p o (.inside (.asking wanted known)))
  have hasks := Leads.alone lone' (.addAsks harm) .refl
  rw [watcher_put, withWatcher_put, put_put] at hasks
  have lone'' := (lone.withWatcher { s.watcher with kernel }).put
    (.add p o (.inside (.told wanted granted)))
  refine .alone lone (.addLooks (lone.tableFree rfl) hdemand) (hasks.trans ?_)
  have htable : s.watcher.table.demand p.normalize o.flags = (wanted, known) := hdemand
  unfold armed at harm
  unfold Watcher.enroll WatchTable.register
  simp only [htable, harm]
  cases granted with
  | error f =>
    have hfails := Leads.alone lone'' .addFails .refl
    rw [put_put] at hfails
    exact hfails
  | ok h =>
    have hstores := Leads.alone lone'' .addStores .refl
    rw [withWatcher_put, put_put] at hstores
    exact hstores

/-- **A registration left to itself** is the registration of the watcher. -/
theorem add_alone {p : Path} {o : WatchOptions} (lone : s.Lone i (.add p o .arriving)) :
    Leads (Only (.call i)) s ((s.withWatcher (s.watcher.add p o).2).put i
      (.add p o (.returned (s.watcher.add p o).1))) := by
  have hdoor := door_alone (Call.add p o) .admitted (.error .closed) lone (fun _ => rfl) .addKnocks
  unfold Watcher.add
  rcases hdoor with ⟨hopen, hled⟩ | ⟨hopen, hled⟩
  · rw [hopen]
    have henroll := enroll_alone (lone.put (.add p o (.inside .admitted)))
    rw [withWatcher_put, put_put] at henroll
    exact hled.trans henroll
  · rw [hopen]
    exact hled

/-- **A look at the paths left to itself** is the list of the watcher. -/
theorem list_alone (lone : s.Lone i (.list .arriving)) :
    Leads (Only (.call i)) s (s.put i (.list (.returned s.watcher.watchList))) := by
  have hdoor := door_alone Call.list () [] lone (fun _ => rfl) .listKnocks
  unfold Watcher.watchList
  rcases hdoor with ⟨hopen, hled⟩ | ⟨hopen, hled⟩
  · rw [hopen]
    have lone' := lone.put (.list (.inside ()))
    have hreads := Leads.alone lone' (.listReads (lone'.tableFree rfl)) .refl
    rw [put_put] at hreads
    exact hled.trans hreads
  · rw [hopen]
    exact hled

/-! ## A reader alone -/

theorem canHand_of_unclosed (unclosed : s.watcher.reader.closing = false) (listening : Bool) :
    s.canHand listening = true := by
  unfold canHand
  rw [unclosed]
  rfl

theorem Leads.reads {hand : Reading} (here : s.reading = hand) (step : s.ReaderStep hand t)
    (htu : Leads (Only .reader) t u) : Leads (Only .reader) s u :=
  .only (step.fire here) htu

/-- The reader makes the event of a record, and hands it over unless it is stale. -/
theorem announced_alone {r : Record} (hand : s.reading = .single r) (free : s.tableFree = true)
    (atWork : s.watcher.reader.AtWork) :
    Leads (Only .reader) s ((s.withWatcher (s.watcher.withReader
      (s.watcher.reader.announced s.watcher.kernel.tree.pathExists r))).turnTo .polling) := by
  unfold Reader.announced
  rw [show s.watcher.reader.table = s.table from rfl]
  cases hevent : r.event? s.table with
  | none => exact .reads hand (.silent r free hevent) .refl
  | some e =>
    refine .reads hand (.translate r e free hevent) ?_
    cases hstale : e.isStale s.watcher.kernel.tree.pathExists with
    | true =>
      simp only [hstale, if_true]
      exact .reads rfl (.stale r e hstale) .refl
    | false =>
      simp only [hstale, Bool.false_eq_true, if_false]
      exact .reads rfl (.keep r e hstale)
        (.reads rfl (.hand r e (canHand_of_unclosed atWork.unclosed _)) .refl)

/-- The reader goes on with a record whose watch, if it moved, was dropped. -/
theorem told_alone {r : Record} (hand : s.reading = .settled r) (free : s.tableFree = true)
    (atWork : s.watcher.reader.AtWork) :
    Leads (Only .reader) s ((s.withWatcher (s.watcher.withReader
      (s.watcher.reader.told s.watcher.kernel.tree.pathExists r))).turnTo .polling) := by
  have hsingle := announced_alone (s := s.turnTo (.single r)) rfl free atWork
  unfold Reader.told
  rw [show s.watcher.reader.table = s.table from rfl]
  cases hdelete : r.mask.has Mask.deleteSelf with
  | false => exact .reads hand (.pass r hdelete) hsingle
  | true =>
    unfold WatchTable.parentReportsDelete
    cases habove : (s.table.resolve? r.handle).bind Path.parent? with
    | none => exact .reads hand (.topmost r hdelete free habove) hsingle
    | some above =>
      rw [Option.bind_some]
      refine .reads hand (.nest r above hdelete free habove) ?_
      cases hentry : s.table.entry? above with
      | none =>
        refine .reads rfl (.uncovered r above free fun w hw => ?_) hsingle
        cases hentry.symm.trans hw
      | some w =>
        cases htells : w.flags.has Mask.delete with
        | true =>
          simp only [htells, Bool.and_true, if_true]
          exact .reads rfl (.covered r above free w hentry htells) .refl
        | false =>
          simp only [htells, Bool.and_false, Bool.false_eq_true, if_false]
          refine .reads rfl (.uncovered r above free fun w' hw => ?_) hsingle
          cases hentry.symm.trans hw
          exact htells

/-- The reader has gone through some records, and the watcher has become another one. -/
structure Works (s : Interplay) (batch : List (Except Malformation Record)) (w : Watcher)
    (t : Interplay) : Prop where
  leads : Leads (Only .reader) s t
  watcher : t.watcher = w
  reading : t.reading = .polling
  batch : t.batch = batch
  calls : t.calls = s.calls
  sleepers : t.sleepers ⊆ s.sleepers

/-- **A reader left to itself with a record** dispatches it, and asks the kernel at once to drop what it
wants dropped. -/
theorem dispatched_alone {r : Record} (hand : s.reading = .taken r) (free : s.tableFree = true)
    (atWork : s.watcher.reader.AtWork) (paid : s.watcher.reader.drops = []) :
    ∃ t, s.Works s.batch (s.watcher.carryOut
      (s.watcher.reader.dispatched s.watcher.kernel.tree.pathExists r)) t := by
  unfold Reader.dispatched
  cases told : r.mask.has Mask.queueOverflow with
  | true =>
    refine ⟨_, .reads hand (.lost r told) (.reads rfl (.report .overflow
      (canHand_of_unclosed atWork.unclosed _)) .refl), ?_, rfl, rfl, rfl, List.Subset.refl _⟩
    exact (s.watcher.carryOut_of_paid paid
      (r := { s.watcher.reader with errors := s.watcher.reader.errors.send .overflow })).symm
  | false =>
    cases more : r.mask.has Mask.ignored with
    | true =>
      refine ⟨_, .reads hand (.last r told more free) .refl, ?_, rfl, rfl, rfl, List.nil_subset _⟩
      exact (s.watcher.carryOut_of_paid paid
        (r := { s.watcher.reader with table := (s.table.purge r.handle).2 })).symm
    | false =>
      -- Where the watch was dropped, the kernel is another one, but the tree and the reader are not.
      have htold : ∀ w : Watcher, w.reader = s.watcher.reader →
          w.kernel.tree = s.watcher.kernel.tree →
          s.ReaderStep (.taken r) ((s.withWatcher w).turnTo (.settled r)) →
          ∃ t, s.Works s.batch
            (w.carryOut (s.watcher.reader.told s.watcher.kernel.tree.pathExists r)) t := by
        intro w hreader htree hstep
        have hled := told_alone (s := (s.withWatcher w).turnTo (.settled r)) rfl free
          (hreader ▸ atWork)
        refine ⟨_, .reads hand hstep hled, ?_, rfl, rfl, rfl, List.Subset.refl _⟩
        rw [Watcher.carryOut_of_paid w ((Reader.drops_told _ _ r).trans paid), ← hreader, ← htree]
        rfl
      cases moved : r.mask.has Mask.moveSelf && r.name.isNone with
      | false => exact htold s.watcher rfl rfl (.settle r told more moved)
      | true =>
        have howing : { s.watcher.reader with drops := s.watcher.reader.drops ++ [r.handle] }
            = s.watcher.reader.owing [r.handle] := by
          rw [paid, Reader.owing, paid]
          rfl
        simp only [Bool.false_eq_true, if_false, if_true]
        rw [howing, Reader.told_owing, Watcher.carryOut_owing]
        exact htold { s.watcher with kernel := (s.watcher.kernel.unwatch r.handle).2 } rfl rfl
          (.drop r told more moved atWork.isOpen)

/-- **A reader left to itself with what it has read** handles it in order. -/
theorem dispatchAll_alone {items : List (Except Malformation Record)} (hand : s.reading = .polling)
    (batch : s.batch = items) (free : s.tableFree = true) (atWork : s.watcher.reader.AtWork)
    (paid : s.watcher.reader.drops = []) : ∃ t, s.Works [] (s.watcher.carryOut
      (s.watcher.reader.dispatchAll s.watcher.kernel.tree.pathExists items).2) t := by
  induction items generalizing s with
  | nil =>
    refine ⟨s, .refl, ?_, hand, batch, rfl, List.Subset.refl _⟩
    exact (s.watcher.carryOut_of_paid paid).symm
  | cons item rest ih =>
    cases item with
    | error m =>
      refine ⟨_, .reads hand (.garbled m rest batch) (.reads rfl (.report (.malformed m)
        (canHand_of_unclosed atWork.unclosed _)) .refl), ?_, rfl, rfl, rfl, List.Subset.refl _⟩
      rw [Reader.dispatchAll, atWork.report]
      exact (s.watcher.carryOut_of_paid paid
        (r := { s.watcher.reader with errors := s.watcher.reader.errors.send (.malformed m) })).symm
    | ok r =>
      obtain ⟨t, hst⟩ := dispatched_alone
        (s := { s with reading := .taken r, batch := rest }) rfl free atWork paid
      have hwork := atWork.dispatched s.watcher.kernel.tree.pathExists r
      have hwatcher : t.watcher = s.watcher.carryOut
        (s.watcher.reader.dispatched s.watcher.kernel.tree.pathExists r) := hst.watcher
      obtain ⟨u, htu⟩ := ih hst.reading hst.batch (by rw [tableFree, hst.calls]; exact free)
        (by rw [hwatcher]; exact ⟨hwork.running, hwork.unclosed, hwork.isOpen⟩)
        (by rw [hwatcher]; rfl)
      refine ⟨u, .reads hand (.take r rest batch) (hst.leads.trans htu.leads), ?_, htu.reading, htu.batch,
        htu.calls.trans hst.calls, List.Subset.trans htu.sleepers hst.sleepers⟩
      rw [htu.watcher, hwatcher, Watcher.tree_carryOut, Reader.dispatchAll,
        Reader.dispatch_of_atWork _ atWork]
      exact Watcher.carryOut_carryOut _ s.watcher hwork rest

/-- The reader has nothing in its hands and owes nothing, and nobody keeps it from the table. -/
structure Rests (s : Interplay) : Prop where
  hand : s.reading = .polling
  batch : s.batch = []
  free : s.tableFree = true
  atWork : s.watcher.reader.AtWork
  paid : s.watcher.reader.drops = []

/-- **A reader left to itself** makes a turn of the watcher. -/
theorem turn_alone (rests : s.Rests) : ∃ t, s.Works [] s.watcher.turn t ∧ t.Rests := by
  obtain ⟨hand, batch, free, atWork, paid⟩ := rests
  unfold Watcher.turn
  rw [atWork.running]
  cases hempty : s.notifier.queue.isEmpty with
  | true =>
    rw [show s.watcher.kernel.notifier.queue.isEmpty = true from hempty]
    exact ⟨s, ⟨.refl, rfl, hand, batch, rfl, List.Subset.refl _⟩, hand, batch, free, atWork, paid⟩
  | false =>
    rw [show s.watcher.kernel.notifier.queue.isEmpty = false from hempty]
    rcases hread : s.watcher.kernel.read s.watcher.settings.readBufferLength with ⟨bytes, kernel⟩
    have hreads : s.ReaderStep .polling { s with
        watcher := { s.watcher with kernel }, batch := Reader.itemsOf bytes } := by
      have hstep := ReaderStep.read (s := s) batch atWork.isOpen hempty
      rwa [hread] at hstep
    obtain ⟨t, hst⟩ := dispatchAll_alone (s := { s with
      watcher := { s.watcher with kernel }, batch := Reader.itemsOf bytes }) hand rfl free atWork paid
    have hwork := (atWork.dispatchAll kernel.tree.pathExists (Reader.itemsOf bytes)).2
    refine ⟨t, ⟨.reads hand hreads hst.leads, ?_, hst.reading, hst.batch, hst.calls, hst.sleepers⟩,
      hst.reading, hst.batch, by rw [tableFree, hst.calls]; exact free, ?_, ?_⟩
    · rw [hst.watcher]
      simp only [Bool.not_false, Bool.and_self, if_true]
      rw [Reader.turn_of_atWork _ atWork]
      rfl
    · rw [hst.watcher]
      exact ⟨hwork.running, hwork.unclosed, hwork.isOpen⟩
    · rw [hst.watcher]
      rfl

/-- So many turns, one after the other. -/
theorem turns_alone (n : Nat) (rests : s.Rests) :
    ∃ t, s.Works [] (s.watcher.turns n) t ∧ t.Rests := by
  induction n generalizing s with
  | zero => exact ⟨s, ⟨.refl, rfl, rests.hand, rests.batch, rfl, List.Subset.refl _⟩, rests⟩
  | succ n ih =>
    obtain ⟨t, hst, htrests⟩ := turn_alone rests
    obtain ⟨u, htu, hurests⟩ := ih htrests
    refine ⟨u, ⟨hst.leads.trans htu.leads, ?_, htu.reading, htu.batch, htu.calls.trans hst.calls,
      List.Subset.trans htu.sleepers hst.sleepers⟩, hurests⟩
    rw [htu.watcher, hst.watcher]
    rfl

/-! ## A call and the reader -/

/-- Steps of a call, of its time, and of the reader. -/
def Jointly (i : Nat) (_ : Interplay) (m : Move) : Prop :=
  m = .call i ∨ m = .timeout i ∨ m = .reader ∨ m = .leave

theorem Leads.jointly {m : Move} (hkind : m = .call i ∨ m = .timeout i ∨ m = .reader ∨ m = .leave)
    (hfire : s.fire m = some t) (htu : Leads (Jointly i) t u) : Leads (Jointly i) s u :=
  (Leads.step .refl hkind hfire).trans htu

theorem Leads.steps (lone : s.Lone i c) (step : s.CallStep i m c c' u) (kind : Jointly i s m)
    (htu : Leads (Jointly i) (u.put i c') t) : Leads (Jointly i) s t :=
  .jointly kind (step.fire lone.stage) htu

/-- A waiter looks, sleeps if its pair is still there, and purges the pair when its time is up. -/
theorem await_alone {p : Path} {h : Handle} (lone : s.Lone i (.remove p (.inside (.waiting h))))
    (awake : i ∉ s.sleepers) : ∃ t, Leads (Jointly i) s t ∧
      t.watcher = (s.watcher.await p.normalize h).2 ∧
      if (s.watcher.await p.normalize h).1 then t.calls = s.calls.set i (.remove p (.returned (.ok ())))
      else i ∈ t.sleepers ∧ t.calls = s.calls := by
  have hfree := lone.tableFree rfl
  have hawake : s.sleepers.contains i = false := by simpa using awake
  unfold Watcher.await WatchTable.wait
  rw [show s.watcher.table = s.table from rfl]
  cases howns : s.table.owns p.normalize h with
  | false => exact ⟨_, .steps lone (.removeConfirmed hfree hawake howns) (.inl rfl) .refl, rfl, rfl⟩
  | true =>
    have hasleep := Leads.steps lone (.removeSleeps hfree hawake howns) (.inl rfl) .refl
    have hsame := set_self lone.stage
    cases hlimit : s.watcher.settings.removeTimeout?.isSome with
    | false => exact ⟨_, hasleep, rfl, List.mem_cons_self, hsame⟩
    | true =>
      have lone' : ({ s with sleepers := i :: s.sleepers }.put i
          (.remove p (.inside (.waiting h)))).Lone i (.remove p (.inside (.waiting h))) :=
        Lone.put (s := { s with sleepers := i :: s.sleepers }) ⟨lone.stage, lone.others⟩ _
      refine ⟨_, hasleep.trans (.steps lone' (.removeForces (lone'.tableFree rfl) ?_ hlimit howns)
        (.inr (.inl rfl)) .refl), rfl, List.set_set ..⟩
      show (i :: s.sleepers).contains i = true
      simp

/-- A waiter lets the reader catch up first. -/
theorem settle_alone {p : Path} {h : Handle} (lone : s.Lone i (.remove p (.inside (.waiting h))))
    (rests : s.Rests) (awake : i ∉ s.sleepers) : ∃ t, Leads (Jointly i) s t ∧
      t.watcher = (s.watcher.settle.await p.normalize h).2 ∧
      if (s.watcher.settle.await p.normalize h).1
      then t.calls = s.calls.set i (.remove p (.returned (.ok ())))
      else i ∈ t.sleepers ∧ t.calls = s.calls := by
  obtain ⟨t, hst, -⟩ := turns_alone _ rests
  have lone' : t.Lone i (.remove p (.inside (.waiting h))) :=
    ⟨hst.calls ▸ lone.stage, fun hd => lone.others (hst.calls ▸ hd)⟩
  obtain ⟨u, htu, hwatcher, hcalls⟩ := await_alone lone' fun hi => awake (hst.sleepers hi)
  rw [hst.watcher] at hwatcher hcalls
  rw [hst.calls] at hcalls
  exact ⟨u, (hst.leads.mono fun _ _ hm => .inr (.inr (.inl hm))).trans htu, hwatcher, hcalls⟩

/-- **A removal and the reader left to themselves** make the removal of the watcher.  Where that has no
answer, the call sleeps. -/
theorem remove_alone {p : Path} (lone : s.Lone i (.remove p .arriving)) (rests : s.Rests)
    (awake : i ∉ s.sleepers) : ∃ t, Leads (Jointly i) s t ∧ t.watcher = (s.watcher.remove p).2 ∧
      match (s.watcher.remove p).1 with
      | some result => t.calls = s.calls.set i (.remove p (.returned result))
      | none => i ∈ t.sleepers ∧ ∃ h, t.calls = s.calls.set i (.remove p (.inside (.waiting h))) := by
  have hdoor := door_alone (Call.remove p) .admitted (.error .closed) lone (fun _ => rfl)
    .removeKnocks
  have hjoint : ∀ {s t}, Leads (Only (.call i)) s t → Leads (Jointly i) s t :=
    fun h => h.mono fun _ _ hm => .inl hm
  unfold Watcher.remove
  rcases hdoor with ⟨hopen, hled⟩ | ⟨hopen, hled⟩
  · rw [hopen]
    have lone' := lone.put (.remove p (.inside .admitted))
    rw [show s.watcher.table = s.table from rfl]
    cases hhandle : s.table.handleOf? p.normalize with
    | none =>
      have hmisses := Leads.steps lone' (.removeMisses (lone'.tableFree rfl) hhandle) (.inl rfl) .refl
      rw [put_put] at hmisses
      exact ⟨_, (hjoint hled).trans hmisses, rfl, rfl⟩
    | some h =>
      have hfinds := Leads.steps lone' (.removeFinds (lone'.tableFree rfl) hhandle) (.inl rfl) .refl
      have lone'' := lone.put (.remove p (.inside (.found h)))
      -- From here on the call waits, and the reader catches up with what the kernel tells.
      have hasks := Leads.steps lone'' (.removeAsks rests.atWork.isOpen) (.inl rfl) .refl
      rw [put_put] at hfinds
      rw [watcher_put, withWatcher_put, put_put] at hasks
      have lone₃ := (lone.withWatcher { s.watcher with
        kernel := (s.watcher.kernel.unwatch h).2 }).put (.remove p (.inside (.waiting h)))
      obtain ⟨t, hst, hwatcher, hcalls⟩ := settle_alone lone₃
        ⟨rests.hand, rests.batch, lone₃.tableFree rfl, rests.atWork, rests.paid⟩ awake
      refine ⟨t, (hjoint hled).trans (hfinds.trans (hasks.trans hst)), ?_, ?_⟩
      · simp only [Watcher.release, rests.atWork.isOpen, if_true]
        exact hwatcher
      · simp only [Watcher.release, rests.atWork.isOpen, if_true]
        rw [watcher_put, watcher_withWatcher] at hcalls
        cases hreturned : (Watcher.await (Watcher.settle { s.watcher with
          kernel := (s.watcher.kernel.unwatch h).2 }) p.normalize h).1 with
        | true =>
          rw [if_pos hreturned] at hcalls
          exact hcalls.trans (List.set_set ..)
        | false =>
          rw [if_neg (by rw [hreturned]; exact Bool.false_ne_true)] at hcalls
          exact ⟨hcalls.1, h, hcalls.2⟩
  · rw [hopen]
    exact ⟨_, hjoint hled, rfl, rfl⟩

/-- A reader that was told to close and has nothing to do leaves. -/
theorem leave_alone (hand : s.reading = .polling) (batch : s.batch = []) (free : s.tableFree = true) :
    ∃ t, Leads (Jointly i) s t ∧ t.reading = .gone ∧ t.calls = s.calls ∧
      t.watcher = (s.watcher.withReader s.watcher.reader.stop).releaseDescriptor := by
  have hleave : s.fire .leave = some (s.turnTo .leaving) := fire_iff_step.mpr (.leave hand batch)
  have hreader : Leads (Only .reader) (s.turnTo .leaving) _ :=
    .reads rfl .stop (.reads rfl .release (.reads rfl (.clear free) (.reads rfl .go .refl)))
  exact ⟨_, .jointly (.inr (.inr (.inr rfl))) hleave
    (hreader.mono fun _ _ hm => .inr (.inr (.inl hm))), rfl, rfl, rfl⟩

/-- A `close` whose reader has gone, or cannot be woken, does what is left to do. -/
theorem joined_alone {result : Except Failure Unit} (lone : s.Lone i (.close (.joined result))) :
    ∃ t, Leads (Jointly i) s t ∧ t.calls = s.calls.set i (.close (.returned result)) ∧
      t.watcher = { s.watcher.releaseDescriptor.withTable .empty with phase := .closed } := by
  have lone' := (lone.withWatcher s.watcher.releaseDescriptor).put (.close (.released result))
  have lone'' : (((s.withWatcher s.watcher.releaseDescriptor).purged .empty).put i
      (.close (.cleared result))).Lone i (.close (.cleared result)) :=
    Lone.put (s := (s.withWatcher s.watcher.releaseDescriptor).purged .empty)
      ⟨lone.stage, lone.others⟩ _
  have hclears := Leads.steps lone' (.closeClears (lone'.tableFree rfl)) (.inl rfl) .refl
  have hput : (((s.withWatcher s.watcher.releaseDescriptor).put i (.close (.released result))).purged
      .empty).put i (.close (.cleared result))
      = ((s.withWatcher s.watcher.releaseDescriptor).purged .empty).put i (.close (.cleared result)) :=
    put_put ((s.withWatcher s.watcher.releaseDescriptor).purged .empty) i _ _
  have hended := Leads.steps lone'' .closeEnds (.inl rfl) .refl
  rw [WatchTable.clear, hput] at hclears
  rw [withWatcher_put, put_put] at hended
  exact ⟨_, .steps lone .closeReleases (.inl rfl) (hclears.trans hended), rfl, rfl⟩

/-- **A `close` and the reader left to themselves** make the `close` of the watcher, whether the reader
has nothing to do or has gone. -/
theorem close_alone (lone : s.Lone i (.close .arriving))
    (reader : s.Rests ∨ s.reading = .gone ∧ s.watcher.reader.running = false) :
    ∃ t, Leads (Jointly i) s t ∧ t.watcher = s.watcher.close.2 ∧
      t.calls = s.calls.set i (.close (.returned s.watcher.close.1)) := by
  unfold Watcher.close
  cases hphase : s.watcher.phase with
  | closed =>
    exact ⟨_, .steps lone (.closeFindsClosed (lone.phaseFree rfl) hphase) (.inl rfl) .refl, rfl, rfl⟩
  | running =>
    obtain ⟨w, hw⟩ : ∃ w, s.watcher.withReader { s.watcher.reader with closing := true } = w :=
      ⟨_, rfl⟩
    have lone' := lone.put (.close .entered)
    have lone'' := fun c => (lone.withWatcher w).put (.close c)
    have hannounces := Leads.steps lone' .closeAnnounces (.inl rfl) .refl
    rw [watcher_put, hw, withWatcher_put, put_put] at hannounces
    have hled := Leads.steps lone (.closeEnters (lone.phaseFree rfl) hphase) (.inl rfl) hannounces
    unfold Reader.wake
    rcases reader with rests | ⟨hgone, hrunning⟩
    · have hhere : ((s.withWatcher w).put i (.close .announced)).reading.isGone = false := by
        show s.reading.isGone = false
        rw [rests.hand]
        rfl
      have hwakes := Leads.steps (lone'' .announced) (.closeWakes hhere) (.inl rfl) .refl
      rw [put_put] at hwakes
      -- The reader is woken, and does itself what the `close` does once more.
      obtain ⟨t, hleave, hgone, hcalls, hleft⟩ := leave_alone (i := i)
        (s := (s.withWatcher w).put i (.close (.woken (.ok ())))) rests.hand rests.batch
        ((lone'' _).tableFree rfl)
      have lonet : t.Lone i (.close (.woken (.ok ()))) :=
        ⟨hcalls ▸ (lone'' _).stage, fun hd => (lone'' _).others (hcalls ▸ hd)⟩
      obtain ⟨u, hjoined, hreturned, hwatcher⟩ := joined_alone (lonet.put (.close (.joined (.ok ()))))
      refine ⟨u, hled.trans (hwakes.trans (hleave.trans (.steps lonet
        (.closeJoins (by rw [hgone]; rfl)) (.inl rfl) hjoined))), ?_, ?_⟩
      · rw [hwatcher, watcher_put, hleft, ← hw]
        rfl
      · rw [hreturned, show s.watcher.reader.running = true from rests.atWork.running]
        show (t.calls.set i _).set i _ = _
        rw [hcalls]
        show ((s.calls.set i _).set i _).set i _ = _
        simp only [List.set_set]
        rfl
    · have hmissing : ((s.withWatcher w).put i (.close .announced)).reading.isGone = true := by
        show s.reading.isGone = true
        rw [hgone]
        rfl
      have hmisses := Leads.steps (lone'' .announced) (.closeMisses hmissing) (.inl rfl) .refl
      have hfails := Leads.steps (lone'' (.woken (.error .unheardWake))) .closeFails
        (.inl rfl) .refl
      rw [put_put] at hmisses hfails
      obtain ⟨u, hjoined, hreturned, hwatcher⟩ := joined_alone (lone'' (.joined (.error .unheardWake)))
      refine ⟨u, hled.trans (hmisses.trans (hfails.trans hjoined)), ?_, ?_⟩
      · rw [hwatcher, watcher_put, watcher_withWatcher, ← hw]
        unfold Watcher.releaseDescriptor Watcher.withTable Watcher.withReader Reader.stop
        simp only [hrunning]
        rfl
      · rw [hreturned, hrunning]
        exact List.set_set ..

end Interplay

end FileWatch
