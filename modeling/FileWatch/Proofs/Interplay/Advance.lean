import FileWatch.Proofs.Interplay.Order

/-!
# The reader gets on

A reader that has something to do and is not on its way out can make a step, unless it waits for the
table, or has something to hand over that nobody will take while closing was asked for; and then it
can give up (`reader_advances`).

Each step takes it nearer to where it has nothing left to do.  A record takes a bounded number of steps,
a read takes at least one record out of the queue, and a watch adds one record at most, the last of its
own.  `Interplay.work` counts all that.
-/

namespace FileWatch

namespace Interplay

variable {s t u : Interplay}

/-- Whether the reader is on its way out. -/
def Reading.departs : Reading → Bool
  | .leaving => true
  | .stopping => true
  | .released => true
  | .cleared => true
  | .gone => true
  | _ => false

/-- How many steps at most a reader takes until it polls again. -/
def Reading.rank : Reading → Nat
  | .taken _ => 7
  | .reporting _ (some _) => 6
  | .settled _ => 5
  | .nested _ _ => 4
  | .single _ => 3
  | .translated _ _ => 2
  | .handing _ _ => 1
  | .reporting _ none => 1
  | _ => 0

/-- What the reader has left to do. -/
def work (s : Interplay) : Nat :=
  s.reading.rank + 8 * s.batch.length + 9 * (s.notifier.queue.length + s.notifier.watches.length)

theorem work_turnTo {reading : Reading} (batch : u.batch = s.batch)
    (notifier : u.notifier = s.notifier) (rank : reading.rank < s.reading.rank) :
    (u.turnTo reading).work < s.work := by
  unfold work
  show reading.rank + 8 * u.batch.length
    + 9 * (u.notifier.queue.length + u.notifier.watches.length) < _
  rw [batch, notifier]
  omega

/-- A read takes something out of the queue, and gives one thing to take up for each record. -/
theorem work_of_read (legible : s.Legible) (queued : s.notifier.queue.isEmpty = false) :
    8 * (Reader.itemsOf (s.watcher.kernel.read s.watcher.settings.readBufferLength).1).length
      + 9 * (Notifier.batch s.watcher.settings.readBufferLength s.notifier.queue).2.length
      < 9 * s.notifier.queue.length := by
  have happend := Notifier.batch_append s.watcher.settings.readBufferLength s.notifier.queue
  have hwell : ∀ r ∈ (Notifier.batch s.watcher.settings.readBufferLength s.notifier.queue).1,
      r.WellFormed := fun r hr => legible.queue r (happend ▸ List.mem_append_left _ hr)
  -- A read takes something, since its buffer holds the longest record.
  have htaken :
      (Notifier.batch s.watcher.settings.readBufferLength s.notifier.queue).1 ≠ [] := by
    cases hqueue : s.notifier.queue with
    | nil =>
      rw [hqueue] at queued
      cases queued
    | cons r rest =>
      have hr := legible.queue r (by rw [hqueue]; exact List.mem_cons_self)
      exact Notifier.batch_ne_nil (Nat.le_trans hr.length_kernelBytes_le (Nat.le_max_right _ _))
  have hitems := Reader.itemsOf_kernelBytes hwell
  rw [List.isEmpty_eq_false_iff.mpr htaken, if_neg Bool.false_ne_true] at hitems
  have hlength := congrArg List.length happend
  rw [List.length_append] at hlength
  have hpos := List.length_pos_iff.mpr htaken
  show 8 * (Reader.itemsOf ((Notifier.batch s.watcher.settings.readBufferLength
      s.notifier.queue).1.flatMap Record.kernelBytes)).length + _ < _
  rw [hitems, List.length_map]
  omega

/-- **Each step takes the reader nearer** to where it has nothing left to do, until it leaves. -/
theorem work_of_readerStep (legible : s.Legible) {hand : Reading} (here : s.reading = hand)
    (stays : hand.departs = false) (step : s.ReaderStep hand t) : t.work < s.work := by
  have hturn : ∀ {u : Interplay} {reading : Reading}, u.batch = s.batch →
      u.notifier = s.notifier → reading.rank < hand.rank → (u.turnTo reading).work < s.work :=
    fun batch notifier rank => work_turnTo batch notifier (here ▸ rank)
  cases step with
  | take r rest batch =>
    unfold work
    rw [here, batch]
    show 7 + 8 * rest.length + 9 * (s.notifier.queue.length + s.notifier.watches.length)
      < 0 + 8 * (rest.length + 1) + 9 * (s.notifier.queue.length + s.notifier.watches.length)
    omega
  | garbled m rest batch =>
    unfold work
    rw [here, batch]
    show 1 + 8 * 0 + 9 * (s.notifier.queue.length + s.notifier.watches.length)
      < 0 + 8 * (rest.length + 1) + 9 * (s.notifier.queue.length + s.notifier.watches.length)
    omega
  | read batch isOpen queued =>
    have hread := work_of_read legible queued
    unfold work
    rw [here, batch]
    show 0 + 8 * (Reader.itemsOf (s.watcher.kernel.read s.watcher.settings.readBufferLength).1).length
      + 9 * ((Notifier.batch s.watcher.settings.readBufferLength s.notifier.queue).2.length
        + s.notifier.watches.length)
      < 0 + 8 * 0 + 9 * (s.notifier.queue.length + s.notifier.watches.length)
    omega
  | drop r =>
    have hrevoked := s.notifier.length_revoke_le r.handle
    unfold work
    rw [here]
    show 5 + 8 * s.batch.length + 9 * ((s.notifier.revoke r.handle).2.queue.length
      + (s.notifier.revoke r.handle).2.watches.length) < 7 + _ + _
    omega
  | stop | release | clear | go => cases stays
  | _ => exact hturn rfl rfl (by simp [Reading.rank])

/-- A reader can make its next step while nobody holds the table, unless it has something to hand over
that nobody takes. -/
theorem exists_readerStep (isOpen : s.descriptorOpen = true) (free : s.tableFree = true)
    (stays : s.reading.departs = false)
    (busy : ¬ (s.reading = .polling ∧ s.batch = [] ∧ s.notifier.queue = [])) :
    (∃ t, s.ReaderStep s.reading t) ∨
      ∃ listening, s.canHand listening = false ∧
        ((∃ f rest, s.reading = .reporting f rest) ∨ ∃ r e, s.reading = .handing r e) := by
  cases hand : s.reading with
  | polling =>
    left
    cases hbatch : s.batch with
    | cons item rest =>
      cases item with
      | ok r => exact ⟨_, .take r rest hbatch⟩
      | error m => exact ⟨_, .garbled m rest hbatch⟩
    | nil =>
      have queued : s.notifier.queue.isEmpty = false :=
        List.isEmpty_eq_false_iff.mpr fun hqueue => busy ⟨hand, hbatch, hqueue⟩
      exact ⟨_, .read hbatch isOpen queued⟩
  | taken r =>
    left
    cases told : r.mask.has Mask.queueOverflow with
    | true => exact ⟨_, .lost r told⟩
    | false =>
      cases more : r.mask.has Mask.ignored with
      | true => exact ⟨_, .last r told more free⟩
      | false =>
        cases moved : (r.mask.has Mask.moveSelf && r.name.isNone) with
        | true => exact ⟨_, .drop r told more moved isOpen⟩
        | false => exact ⟨_, .settle r told more moved⟩
  | reporting f rest =>
    cases can : s.canHand s.watcher.reader.errors.listening with
    | true =>
      left
      cases rest with
      | none => exact ⟨_, .report f can⟩
      | some r => exact ⟨_, .resume f r can⟩
    | false => exact .inr ⟨_, can, .inl ⟨f, rest, rfl⟩⟩
  | settled r =>
    left
    cases deleted : r.mask.has Mask.deleteSelf with
    | true =>
      cases lay : (s.table.resolve? r.handle).bind Path.parent? with
      | none => exact ⟨_, .topmost r deleted free lay⟩
      | some above => exact ⟨_, .nest r above deleted free lay⟩
    | false => exact ⟨_, .pass r deleted⟩
  | nested r above =>
    left
    by_cases tells : ∃ w, s.table.entry? above = some w ∧ w.flags.has Mask.delete = true
    · obtain ⟨w, watched, tells⟩ := tells
      exact ⟨_, .covered r above free w watched tells⟩
    · refine ⟨_, .uncovered r above free fun w watched => ?_⟩
      exact Bool.eq_false_iff.mpr fun hw => tells ⟨w, watched, hw⟩
  | single r =>
    left
    cases means : r.event? s.table with
    | none => exact ⟨_, .silent r free means⟩
    | some e => exact ⟨_, .translate r e free means⟩
  | translated r e =>
    left
    cases stale : e.isStale s.watcher.kernel.tree.pathExists with
    | true => exact ⟨_, .stale r e stale⟩
    | false => exact ⟨_, .keep r e stale⟩
  | handing r e =>
    cases can : s.canHand s.watcher.reader.events.listening with
    | true => exact .inl ⟨_, .hand r e can⟩
    | false => exact .inr ⟨_, can, .inr ⟨r, e, rfl⟩⟩
  | leaving | stopping | released | cleared | gone =>
    rw [hand] at stays
    cases stays

/-- **A reader gets on**, or can give up. -/
theorem reader_advances (legible : s.Legible) (isOpen : s.descriptorOpen = true)
    (free : s.tableFree = true) (stays : s.reading.departs = false)
    (busy : ¬ (s.reading = .polling ∧ s.batch = [] ∧ s.notifier.queue = [])) :
    (∃ t, s.fire .reader = some t ∧ t.work < s.work) ∨
      s.watcher.reader.closing = true ∧
        ∃ t, s.fire .giveUp = some t ∧ t.reading = .leaving ∧ t.calls = s.calls := by
  rcases exists_readerStep isOpen free stays busy with ⟨t, step⟩ | ⟨listening, hcan, hand⟩
  · exact .inl ⟨t, step.fire rfl, work_of_readerStep legible rfl stays step⟩
  · have hclosing : s.watcher.reader.closing = true := by
      simpa using (Bool.or_eq_false_iff.mp hcan).1
    right
    rcases hand with ⟨f, rest, hand⟩ | ⟨r, e, hand⟩
    · exact ⟨hclosing, _, fire_iff_step.mpr (.giveUpReport f rest hclosing hand), rfl, rfl⟩
    · exact ⟨hclosing, _, fire_iff_step.mpr (.giveUpEvent r e hclosing hand), rfl, rfl⟩

end Interplay

end FileWatch
