import FileWatch.Proofs.Interplay.Effects

/-!
# What holds in every state

Three things hold in every reachable state, whoever has made which steps.

* What was read is what was queued (`Legible`).
* Nothing that has ended begins again: a reader, a descriptor, a phase (`Onward`).
* The kernel gives out no handle twice, and the record that says a watch is gone is the last one of
  its handle (`Ordered`).

A handle that the kernel has dropped is `Spent`: it never comes back.  Once its last record was read as
well, nothing in the whole state has to do with it, and that is for ever (`Gone`).
-/

namespace FileWatch

namespace Interplay

variable {s t u : Interplay} {m : Move} {h : Handle}

/-! ## Moves one after the other -/

namespace Leads

variable {kind wider : Interplay → Move → Prop}

theorem trans (hst : Leads kind s t) (htu : Leads kind t u) : Leads kind s u := by
  induction htu with
  | refl => exact hst
  | step _ allowed fired ih => exact .step ih allowed fired

theorem mono (hkind : ∀ s m, kind s m → wider s m) (hst : Leads kind s t) : Leads wider s t := by
  induction hst with
  | refl => exact .refl
  | step _ allowed fired ih => exact .step ih (hkind _ _ allowed) fired

theorem anything (hst : Leads kind s t) : Leads Anything s t := hst.mono fun _ _ _ => trivial

/-- What every move of a kind keeps is kept by all of them together. -/
theorem keeps {P : Interplay → Prop}
    (step : ∀ {s t m}, P s → kind s m → s.fire m = some t → P t)
    (hst : Leads kind s t) (hs : P s) : P t := by
  induction hst with
  | refl => exact hs
  | step _ allowed fired ih => exact step ih allowed fired

end Leads

theorem leads_of_run {moves : List Move} (hrun : s.run moves = some t) : Leads Anything s t := by
  induction moves generalizing s with
  | nil =>
    cases hrun
    exact .refl
  | cons m rest ih =>
    obtain ⟨v, hfire, hrest⟩ := Option.bind_eq_some_iff.mp hrun
    exact (Leads.step .refl trivial hfire).trans (ih hrest)

/-- The state after some moves, if they can be made and each of them passes a test. -/
def runWhile (allowed : Interplay → Move → Bool) : Interplay → List Move → Option Interplay
  | s, [] => some s
  | s, m :: rest => if allowed s m then (s.fire m).bind fun t => t.runWhile allowed rest else none

theorem leads_of_runWhile {allowed : Interplay → Move → Bool} {kind : Interplay → Move → Prop}
    (passes : ∀ s m, allowed s m = true → kind s m) {moves : List Move}
    (hrun : s.runWhile allowed moves = some t) : Leads kind s t := by
  induction moves generalizing s with
  | nil =>
    cases hrun
    exact .refl
  | cons m rest ih =>
    unfold runWhile at hrun
    split at hrun
    · rename_i hallowed
      obtain ⟨v, hfire, hrest⟩ := Option.bind_eq_some_iff.mp hrun
      exact (Leads.step .refl (passes s m hallowed) hfire).trans (ih hrest)
    · cases hrun

theorem Reachable.leads {kind : Interplay → Move → Prop} (hs : Reachable s)
    (hst : Leads kind s t) : Reachable t := by
  obtain ⟨settings, tree, limit, hstart⟩ := hs
  exact ⟨settings, tree, limit, hstart.trans hst.anything⟩

/-- What holds at the start and is kept by every move holds in every reachable state. -/
theorem Reachable.induction {P : Interplay → Prop}
    (init : ∀ settings tree limit, P (start settings tree limit))
    (step : ∀ {s t m}, P s → s.fire m = some t → P t) (hs : Reachable s) : P s := by
  obtain ⟨settings, tree, limit, hstart⟩ := hs
  exact hstart.keeps (fun hP _ hfire => step hP hfire) (init settings tree limit)

/-! ## What was read -/

theorem wellFormed_of_effect (heffect : s.Effect m t)
    (hs : ∀ r ∈ s.notifier.queue, r.WellFormed) : ∀ r ∈ t.notifier.queue, r.WellFormed := by
  have hlost : Notifier.lost.WellFormed := .of_name_none rfl
  show ∀ r ∈ t.core.notifier.queue, r.WellFormed
  cases heffect with
  | still core | purge r _ _ _ _ _ _ _ core | giveUp _ core | store i p o wanted h _ _ core
  | forced i h _ _ _ core | disk tree _ core | announce i _ core | stop _ core
  | clear _ _ _ core | shut i result _ _ core =>
    rw [core]
    exact hs
  | done r _ _ _ core =>
    have hsame : s.core.notifier = t.core.notifier := by rw [core]
    rw [← hsame]
    exact hs
  | read rs left _ _ queue core =>
    rw [core]
    intro r hr
    exact hs r (queue ▸ List.mem_append_right rs hr)
  | grant i inode flags h _ _ granted core =>
    rw [core]
    show ∀ r ∈ (s.notifier.grant inode flags).2.queue, _
    rw [Notifier.queue_grant granted]
    exact hs
  | post r _ wellFormed _ _ core =>
    rw [core]
    exact Notifier.forall_queue_post hs wellFormed hlost
  | revoke h _ core =>
    rw [core]
    show ∀ r ∈ (s.notifier.revoke h).2.queue, _
    unfold Notifier.revoke
    split
    · exact Notifier.forall_queue_post hs (.of_name_none rfl) hlost
    · exact hs
  | release _ core =>
    rw [core]
    nofun

/-- A read brings records or one error, and taking them up leaves the others. -/
theorem batch_of_readerStep (legible : s.Legible) {hand : Reading} (step : s.ReaderStep hand t) :
    (∃ rs : List Record, t.batch = rs.map .ok) ∨ ∃ m, t.batch = [.error m] := by
  cases step with
  | take r rest batch =>
    rcases legible.batch with ⟨rs, hrs⟩ | ⟨m, hm⟩
    · cases rs with
      | nil => rw [hrs] at batch; cases batch
      | cons q rs =>
        rw [hrs, List.map_cons] at batch
        cases batch
        exact .inl ⟨rs, rfl⟩
    · rw [hm] at batch
      cases batch
  | garbled => exact .inl ⟨[], rfl⟩
  | read =>
    have happend := Notifier.batch_append s.watcher.settings.readBufferLength s.notifier.queue
    have hitems := Reader.itemsOf_kernelBytes fun r hr =>
      legible.queue r (happend ▸ List.mem_append_left _ hr)
    split at hitems
    · exact .inr ⟨_, hitems⟩
    · exact .inl ⟨_, hitems⟩
  | _ => exact legible.batch

theorem legible_of_fire (legible : s.Legible) (hfire : s.fire m = some t) : t.Legible where
  queue := wellFormed_of_effect (effect_of_fire legible hfire).1 legible.queue
  batch := by
    cases step_of_fire hfire with
    | call stage step =>
      rw [show (put _ _ _).batch = s.batch from step.batch]
      exact legible.batch
    | reader step => exact batch_of_readerStep legible step
    | giveUpReport | giveUpEvent => exact .inl ⟨[], rfl⟩
    | _ => exact legible.batch

/-! ## What has ended -/

/-- Nothing that has ended begins again, and the settings stay. -/
structure Onward (s t : Interplay) : Prop where
  settings : t.watcher.settings = s.watcher.settings
  phase : s.watcher.phase = .closed → t.watcher.phase = .closed
  running : t.watcher.reader.running = true → s.watcher.reader.running = true
  closing : s.watcher.reader.closing = true → t.watcher.reader.closing = true
  descriptorOpen : t.descriptorOpen = true → s.descriptorOpen = true

theorem Onward.refl (s : Interplay) : s.Onward s := ⟨rfl, id, id, id, id⟩

theorem Onward.trans (hst : s.Onward t) (htu : t.Onward u) : s.Onward u where
  settings := htu.settings.trans hst.settings
  phase h := htu.phase (hst.phase h)
  running h := hst.running (htu.running h)
  closing h := htu.closing (hst.closing h)
  descriptorOpen h := hst.descriptorOpen (htu.descriptorOpen h)

/-- What is the same in the core of two states makes one follow on the other. -/
theorem Onward.of_core (settings : t.core.settings = s.core.settings)
    (phase : s.core.phase = .closed → t.core.phase = .closed)
    (running : t.core.running = true → s.core.running = true)
    (closing : s.core.closing = true → t.core.closing = true)
    (descriptorOpen : t.core.descriptorOpen = true → s.core.descriptorOpen = true) :
    s.Onward t := ⟨settings, phase, running, closing, descriptorOpen⟩

theorem onward_of_effect (heffect : s.Effect m t) : s.Onward t := by
  cases heffect with
  | still core | purge r _ _ _ _ _ _ _ core | giveUp _ core | read rs left _ _ _ core
  | grant i inode flags h _ _ _ core | store i p o wanted h _ _ core | post r _ _ _ _ core
  | revoke h _ core | forced i h _ _ _ core | disk tree _ core | clear _ _ _ core =>
    refine .of_core ?_ ?_ ?_ ?_ ?_ <;> rw [core] <;> exact id
  | done r _ _ _ core =>
    refine .of_core ?_ ?_ ?_ ?_ ?_ <;> rw [core] <;> exact id
  | announce i _ core =>
    refine .of_core ?_ ?_ ?_ ?_ ?_ <;> rw [core]
    · exact id
    · exact id
    · exact fun _ => rfl
    · exact id
  | stop _ core =>
    refine .of_core ?_ ?_ ?_ ?_ ?_ <;> rw [core]
    · exact id
    · exact nofun
    · exact id
    · exact id
  | release _ core =>
    refine .of_core ?_ ?_ ?_ ?_ ?_ <;> rw [core]
    · exact id
    · exact id
    · exact id
    · exact nofun
  | shut i result _ _ core =>
    refine .of_core ?_ ?_ ?_ ?_ ?_ <;> rw [core]
    · exact fun _ => rfl
    · exact id
    · exact id
    · exact id

theorem Reachable.legible (hs : Reachable s) : s.Legible :=
  hs.induction legible_start legible_of_fire

theorem Leads.onward {kind : Interplay → Move → Prop} (hs : Reachable s) (hst : Leads kind s t) :
    s.Onward t := by
  induction hst with
  | refl => exact .refl s
  | step before _ fired ih =>
    exact ih.trans (onward_of_effect (effect_of_fire (hs.leads before).legible fired).1)

/-! ## Handles -/

/-- A handle that the kernel will not use any more. -/
structure Spent (s : Interplay) (h : Handle) : Prop where
  dead : s.notifier.isLive h = false
  issued : s.descriptorOpen = true → s.notifier.Issued h

/-- The maps of the table are inverse, the kernel knows nothing when the descriptor is closed, and the
record that says a watch is gone is the last one of its handle, which is spent. -/
structure Ordered (s : Interplay) : Prop where
  paired : s.table.Paired
  sound : s.notifier.Sound
  closed : s.descriptorOpen = false → s.notifier.watches = [] ∧ s.notifier.queue = []
  last : s.pending.Pairwise fun q r => q.mask.has Mask.ignored = true → r.handle ≠ q.handle
  spent : ∀ r ∈ s.pending, r.mask.has Mask.ignored = true → s.Spent r.handle

theorem Ordered.open_of_isLive (ordered : s.Ordered) (hlive : s.notifier.isLive h = true) :
    s.descriptorOpen = true := by
  cases hopen : s.descriptorOpen with
  | true => rfl
  | false =>
    rw [Notifier.isLive, (ordered.closed hopen).1] at hlive
    cases hlive

/-- What the reader has in hand, it is not done with. -/
theorem mem_pending {r : Record} {hand : Reading} (here : s.reading = hand)
    (has : hand.record? = some r) : r ∈ s.pending := by
  unfold pending taken
  rw [here, has]
  exact List.mem_cons_self

/-- What a move does to the records that wait.  Some go; at most one comes.  It is about a watch that was
live, or says that such a record was lost; and it was queued, or is the last of its watch. -/
theorem pending_of_effect (heffect : s.Effect m t) : t.pending.Sublist s.pending ∨
    ∃ r x, s.notifier.isLive r.handle = true ∧ (x = r ∨ x = Notifier.lost) ∧
      (m = .queue r ∨ r.mask = Mask.ignored) ∧
      (r.mask.has Mask.ignored = true → t.notifier.isLive r.handle = false) ∧
      t.notifier.granted = s.notifier.granted ∧ t.pending = s.pending ++ [x] := by
  have hpending : ∀ v : Interplay, v.pending = v.core.taken ++ v.core.notifier.queue := fun _ => rfl
  rw [hpending t, hpending s]
  cases heffect with
  | still core | store i p o wanted h _ _ core | forced i h _ _ _ core | disk tree _ core
  | announce i _ core | stop _ core | clear _ _ _ core | shut i result _ _ core =>
    rw [core]
    exact .inl (.refl _)
  | done r _ _ _ core =>
    rw [core]
    exact .inl (List.sublist_cons_self _ _)
  | purge r _ _ _ _ _ _ taken core =>
    rw [core]
    show (t.taken ++ s.notifier.queue).Sublist (s.taken ++ s.notifier.queue) ∨ _
    rw [taken]
    exact .inl (List.sublist_cons_self _ _)
  | giveUp _ core =>
    rw [core]
    exact .inl (List.sublist_append_right _ _)
  | read rs left _ empty queue core =>
    rw [core]
    show (rs ++ left).Sublist (s.taken ++ s.notifier.queue) ∨ _
    rw [empty, queue]
    exact .inl (.refl _)
  | grant i inode flags h _ _ granted core =>
    rw [core]
    show (s.taken ++ (s.notifier.grant inode flags).2.queue).Sublist _ ∨ _
    rw [Notifier.queue_grant granted]
    exact .inl (.refl _)
  | post r mover _ live notLast core =>
    have hcore : t.notifier = t.core.notifier := rfl
    rw [hcore, core]
    rcases @Notifier.queue_post s.notifier r with hsame | ⟨x, hx, hadd⟩
    · -- The queue is full, and says so already.
      left
      show (s.taken ++ (s.notifier.post r).queue).Sublist _
      rw [hsame]
      exact .refl _
    · refine .inr ⟨r, x, live, hx, .inl mover, fun h => absurd h notLast, Notifier.granted_post r, ?_⟩
      show s.taken ++ (s.notifier.post r).queue = _
      rw [hadd, ← List.append_assoc]
      rfl
  | revoke h _ core =>
    have hcore : t.notifier = t.core.notifier := rfl
    rw [hcore, core]
    rcases @Notifier.queue_revoke s.notifier h with hsame | ⟨live, x, hx, hadd⟩
    · left
      show (s.taken ++ (s.notifier.revoke h).2.queue).Sublist _
      rw [hsame]
      exact .refl _
    · refine .inr ⟨Notifier.lastRecord h, x, live, hx, .inr rfl, fun _ => ?_,
        Notifier.granted_revoke h, ?_⟩
      · show (s.notifier.revoke h).2.isLive h = false
        rw [Notifier.isLive_revoke]
        simp
      · show s.taken ++ (s.notifier.revoke h).2.queue = _
        rw [hadd, ← List.append_assoc]
        rfl
  | release _ core =>
    rw [core]
    exact .inl ((List.Sublist.refl _).append (List.nil_sublist _))

/-- **A spent handle stays spent.** -/
theorem Spent.of_effect (ordered : s.Ordered) (hspent : s.Spent h) (heffect : s.Effect m t) :
    t.Spent h := by
  cases heffect.notifier with
  | still notifier same | read _ _ _ notifier same =>
    exact ⟨by rw [notifier]; exact hspent.dead, by rw [notifier, same]; exact hspent.issued⟩
  | post r _ notifier same =>
    constructor
    · rw [notifier, Notifier.isLive, Notifier.watches_post]
      exact hspent.dead
    · rw [notifier, same]
      intro hopen
      obtain ⟨k, hk, heq⟩ := hspent.issued hopen
      exact ⟨k, (Notifier.granted_post r).symm ▸ hk, heq⟩
  | grant inode flags g isOpen granted notifier same =>
    -- The kernel grants a live handle or a new one, and a spent one is neither.
    have hne : h ≠ g := by
      rintro rfl
      rcases Notifier.isLive_or_not_issued ordered.sound granted with hlive | hnot
      · rw [hspent.dead] at hlive
        cases hlive
      · exact hnot (hspent.issued isOpen)
    constructor
    · rw [notifier, Notifier.isLive_grant granted, hspent.dead]
      simpa using hne
    · rw [notifier]
      exact fun _ => (hspent.issued isOpen).grant granted
  | revoke g notifier same =>
    constructor
    · rw [notifier, Notifier.isLive_revoke, hspent.dead]
      rfl
    · rw [notifier, same]
      intro hopen
      obtain ⟨k, hk, heq⟩ := hspent.issued hopen
      exact ⟨k, (Notifier.granted_revoke g).symm ▸ hk, heq⟩
  | release notifier closed => exact ⟨by rw [notifier]; rfl, by rw [closed]; nofun⟩

theorem Spent.ne_of_isLive (hspent : s.Spent h) {g : Handle} (hlive : s.notifier.isLive g = true) :
    g ≠ h := by
  rintro rfl
  rw [hspent.dead] at hlive
  cases hlive

theorem Spent.ne_lost (ordered : s.Ordered) (hspent : s.Spent h) (hopen : s.descriptorOpen = true) :
    Notifier.lost.handle ≠ h := by
  rintro rfl
  exact (hspent.issued hopen).ne_lost ordered.sound.granted_le rfl

/-- No record that comes is about a spent handle. -/
theorem Spent.pending_of_effect (ordered : s.Ordered) (hspent : s.Spent h)
    (heffect : s.Effect m t) {r : Record} (hr : r ∈ t.pending) (hh : r.handle = h) :
    r ∈ s.pending := by
  rcases Interplay.pending_of_effect heffect with hsub | ⟨q, x, live, hx, -, -, -, hadd⟩
  · exact hsub.subset hr
  · rw [hadd, List.mem_append, List.mem_singleton] at hr
    rcases hr with hr | rfl
    · exact hr
    · rcases hx with rfl | rfl
      · exact absurd hh (hspent.ne_of_isLive live)
      · exact absurd hh (hspent.ne_lost ordered (ordered.open_of_isLive live))

theorem paired_of_effect (paired : s.table.Paired) (heffect : s.Effect m t) : t.table.Paired := by
  cases heffect.table with
  | still table => exact table ▸ paired
  | remove g table => exact table ▸ paired.removeHandle g
  | store p w _ table => exact table ▸ paired.insert p w
  | clear table => exact table ▸ WatchTable.paired_empty

theorem sound_of_effect (sound : s.notifier.Sound) (heffect : s.Effect m t) :
    t.notifier.Sound := by
  cases heffect.notifier with
  | still notifier => exact notifier ▸ sound
  | read _ _ _ notifier =>
    rw [notifier]
    exact ⟨sound.granted_le, sound.issued, sound.distinct⟩
  | grant _ _ _ _ granted notifier => exact notifier ▸ sound.grant granted
  | post r _ notifier => exact notifier ▸ sound.post r
  | revoke g notifier => exact notifier ▸ sound.revoke g
  | release notifier => exact notifier ▸ Notifier.sound_fresh _

/-- Once the descriptor is closed, nothing is watched any more, and so nothing is queued. -/
theorem closed_of_effect (ordered : s.Ordered) (heffect : s.Effect m t)
    (hclosed : t.descriptorOpen = false) : t.notifier.watches = [] ∧ t.notifier.queue = [] := by
  have hdead : s.descriptorOpen = false → ∀ h, s.notifier.isLive h = false := fun hopen h => by
    rw [Notifier.isLive, (ordered.closed hopen).1]
    rfl
  cases heffect.notifier with
  | still notifier same =>
    rw [notifier]
    exact ordered.closed (same ▸ hclosed)
  | read rs left queue notifier same =>
    obtain ⟨hwatches, hqueue⟩ := ordered.closed (same ▸ hclosed)
    rw [hqueue] at queue
    rw [notifier]
    exact ⟨hwatches, (List.append_eq_nil_iff.mp queue.symm).2⟩
  | grant _ _ _ isOpen _ _ same =>
    rw [same, isOpen] at hclosed
    cases hclosed
  | post r live _ same =>
    rw [hdead (same ▸ hclosed)] at live
    cases live
  | revoke h notifier same =>
    rw [notifier, Notifier.revoke, hdead (same ▸ hclosed)]
    exact ordered.closed (same ▸ hclosed)
  | release notifier =>
    rw [notifier]
    exact ⟨rfl, rfl⟩

theorem ordered_start (settings : Settings) (tree : Tree) (limit : Nat) :
    (start settings tree limit).Ordered :=
  ⟨WatchTable.paired_empty, Notifier.sound_fresh limit, nofun, .nil, nofun⟩

theorem ordered_of_effect (ordered : s.Ordered) (heffect : s.Effect m t) : t.Ordered where
  paired := paired_of_effect ordered.paired heffect
  sound := sound_of_effect ordered.sound heffect
  closed := closed_of_effect ordered heffect
  last := by
    -- What comes is about a live watch, and a handle whose last record waits is not live.
    rcases pending_of_effect heffect with hsub | ⟨r, x, live, hx, -, -, -, hadd⟩
    · exact ordered.last.sublist hsub
    · rw [hadd]
      refine List.pairwise_append.mpr ⟨ordered.last, List.pairwise_singleton _ _, ?_⟩
      intro q hq y hy hlast
      rw [List.mem_singleton.mp hy]
      have hspent := ordered.spent q hq hlast
      rcases hx with rfl | rfl
      · exact hspent.ne_of_isLive live
      · exact hspent.ne_lost ordered (ordered.open_of_isLive live)
  spent := by
    intro r hr hlast
    rcases pending_of_effect heffect with hsub | ⟨q, x, live, hx, -, hdead, hgranted, hadd⟩
    · exact (ordered.spent r (hsub.subset hr) hlast).of_effect ordered heffect
    · rw [hadd, List.mem_append, List.mem_singleton] at hr
      rcases hr with hr | rfl
      · exact (ordered.spent r hr hlast).of_effect ordered heffect
      · rcases hx with rfl | rfl
        · refine ⟨hdead hlast, fun _ => ?_⟩
          obtain ⟨w, hw, hh⟩ := Notifier.isLive_iff.mp live
          obtain ⟨k, hk, heq⟩ := ordered.sound.issued w hw
          exact ⟨k, hgranted ▸ hk, hh ▸ heq⟩
        · cases hlast

/-! ## A handle that nothing has to do with -/

/-- Nothing in the whole state has to do with a handle. -/
structure Gone (s : Interplay) (h : Handle) : Prop where
  spent : s.Spent h
  notHeld : h ∉ s.held
  notPending : ∀ r ∈ s.pending, r.handle ≠ h
  unresolved : s.table.resolve? h = none

theorem Reachable.ordered (hs : Reachable s) : s.Ordered := by
  suffices h : s.Legible ∧ s.Ordered from h.2
  refine hs.induction (P := fun s => s.Legible ∧ s.Ordered) (fun settings tree limit => ?_)
    fun h hfire => ?_
  · exact ⟨legible_start settings tree limit, ordered_start settings tree limit⟩
  · exact ⟨legible_of_fire h.1 hfire, ordered_of_effect h.2 (effect_of_fire h.1 hfire).1⟩

/-- A handle that is held was held before, or was granted in this move. -/
theorem held_of_touches (htouches : s.Touches m t) (hh : h ∈ t.held) : h ∈ s.held ∨
    s.descriptorOpen = true ∧ ∃ inode flags, (s.notifier.grant inode flags).1 = .ok h := by
  obtain ⟨c, hc, hheld⟩ := List.mem_filterMap.mp hh
  obtain ⟨i, hi⟩ := List.mem_iff_getElem?.mp hc
  rcases call_of_touches htouches hi with hsame | ⟨-, -, fresh⟩ | ⟨d, -, -, passes⟩
  · exact .inl (List.mem_filterMap.mpr ⟨c, List.mem_of_getElem? hsame, hheld⟩)
  · unfold Call.held? at hheld
    split at hheld
    · cases fresh
    · cases hheld
  · exact .inr (passes.held h hheld)

/-- While nobody holds the table, no handle waits to be stored. -/
theorem held_of_tableFree (hfree : s.tableFree = true) : s.held = [] := by
  unfold held
  refine List.filterMap_eq_nil_iff.mpr fun c hc => ?_
  have := List.all_eq_true.mp hfree c hc
  unfold Call.held?
  split
  · cases this
  · rfl

theorem Spent.notHeld_of_touches (ordered : s.Ordered) (hspent : s.Spent h) (hnot : h ∉ s.held)
    (htouches : s.Touches m t) : h ∉ t.held := by
  intro hh
  rcases held_of_touches htouches hh with hheld | ⟨hopen, inode, flags, granted⟩
  · exact hnot hheld
  · rcases Notifier.isLive_or_not_issued ordered.sound granted with hlive | hnew
    · exact hspent.ne_of_isLive hlive rfl
    · exact hnew (hspent.issued hopen)

/-- A handle that is not in the table comes there when a registration stores it. -/
theorem resolve?_of_fire (ordered : s.Ordered) (hfire : s.fire m = some t)
    (unstored : ∀ (i : Nat) (p : Path) (o : WatchOptions) (wanted : Mask), m = .call i →
      s.calls[i]? ≠ some (.add p o (.inside (.told wanted (.ok h)))))
    (hnone : s.table.resolve? h = none) : t.table.resolve? h = none := by
  rcases altered_of_fire hfire with hsame | alters
  · exact hsame ▸ hnone
  cases alters with
  | purge _ _ _ _ table | force _ _ _ _ _ _ table =>
    rw [table, ordered.paired.removeHandle_eq, WatchTable.resolve?_without, hnone, ite_self]
  | wipe _ table =>
    rw [table]
    rfl
  | store i p o wanted g mover stage table =>
    have hne : g ≠ h := by
      rintro rfl
      exact unstored i p o wanted mover stage
    rw [table, WatchTable.resolve?_insert, if_neg hne, hnone, ite_self]

theorem resolve?_of_notHeld (ordered : s.Ordered) (hfire : s.fire m = some t) (hnot : h ∉ s.held)
    (hnone : s.table.resolve? h = none) : t.table.resolve? h = none :=
  resolve?_of_fire ordered hfire (fun _ _ _ _ _ stage => hnot (mem_held stage)) hnone

/-- **What is gone stays gone.** -/
theorem Gone.of_fire (hs : Reachable s) (hgone : s.Gone h) (hfire : s.fire m = some t) :
    t.Gone h := by
  have ordered := hs.ordered
  obtain ⟨heffect, htouches⟩ := effect_of_fire hs.legible hfire
  refine ⟨hgone.spent.of_effect ordered heffect,
    hgone.spent.notHeld_of_touches ordered hgone.notHeld htouches, ?_,
    resolve?_of_notHeld ordered hfire hgone.notHeld hgone.unresolved⟩
  intro r hr hh
  exact hgone.notPending r (hgone.spent.pending_of_effect ordered heffect hr hh) hh

theorem Gone.leads {kind : Interplay → Move → Prop} (hs : Reachable s) (hgone : s.Gone h)
    (hst : Leads kind s t) : t.Gone h := by
  induction hst with
  | refl => exact hgone
  | step before _ fired ih => exact ih.of_fire (hs.leads before) fired

/-- **With its last record a handle is gone.**  The record was the last one of a handle that is spent,
and while the table is free nobody holds a handle. -/
theorem gone_of_purge (ordered : s.Ordered) (heffect : s.Effect m t) (htouches : s.Touches m t)
    {r : Record} (last : r.mask.has Mask.ignored = true) (free : s.tableFree = true)
    (taken : s.taken = r :: t.taken)
    (core : t.core = { s.core with table := (s.table.purge r.handle).2, taken := t.taken }) :
    t.Gone r.handle := by
  have hpending : s.pending = r :: t.pending := by
    have hqueue : t.notifier = s.notifier := congrArg Core.notifier core
    unfold pending
    rw [taken, hqueue]
    rfl
  have hspent := ordered.spent r (by rw [hpending]; exact List.mem_cons_self) last
  refine ⟨hspent.of_effect ordered heffect,
    hspent.notHeld_of_touches ordered (by rw [held_of_tableFree free]; nofun) htouches, ?_, ?_⟩
  · have hlast := ordered.last
    rw [hpending] at hlast
    exact fun q hq => (List.pairwise_cons.mp hlast).1 q hq last
  · have htable : t.table = (s.table.removeHandle r.handle).2 := congrArg Core.table core
    rw [htable, ordered.paired.removeHandle_eq, WatchTable.resolve?_without,
      if_pos (List.mem_singleton_self _)]

end Interplay

end FileWatch
