import FileWatch.Proofs.Interplay.Steps
import FileWatch.Proofs.WatchTable.Pairing

/-!
# What a move changes

Most of a state belongs to one party and is seen by nobody else.  What they have between them is its
`Core`: the table, what the kernel knows, whether the descriptor is open, and the records that were
read and are not done with.  An `Effect` is what one move does to the core.  There are few, and each
says who can cause it; so an invariant about the core is one short case for each effect, whatever the
party and wherever in its work.

For a read to have its effect, what is read must be what was queued.  That holds of every reachable
state (`Legible`).
-/

namespace FileWatch

/-- What the kernel is asked for leads to a watch, or changes nothing. -/
theorem Watcher.arm_cases (w : Watcher) (p : Path) (flags : Mask) :
    (∃ f, w.arm p flags = (.error f, w.kernel)) ∨
      ∃ inode h, p.bytes.contains 0 = false ∧ w.reader.descriptorOpen = true ∧
        flags.has Mask.known = true ∧
        w.kernel.tree.find (!flags.has Mask.dontFollow) p = .ok inode ∧
        (w.kernel.notifier.grant inode flags).1 = .ok h ∧
        w.arm p flags = (.ok h,
          { w.kernel with notifier := (w.kernel.notifier.grant inode flags).2 }) := by
  unfold Watcher.arm
  cases hnul : p.bytes.findIdx? (· == 0) with
  | some n => exact .inl ⟨_, rfl⟩
  | none =>
    have hno : p.bytes.contains 0 = false := by
      rw [List.findIdx?_eq_none_iff] at hnul
      rw [List.contains_eq_any_beq, List.any_eq_false]
      intro b hb
      simpa [BEq.comm] using hnul b hb
    cases hopen : w.reader.descriptorOpen with
    | false => exact .inl ⟨_, rfl⟩
    | true =>
      simp only [if_true]
      unfold Kernel.watch
      cases hknown : flags.has Mask.known with
      | false => exact .inl ⟨_, rfl⟩
      | true =>
        simp only [Bool.not_true, Bool.false_eq_true, if_false]
        cases hfind : w.kernel.tree.find (!flags.has Mask.dontFollow) p with
        | error e => exact .inl ⟨_, rfl⟩
        | ok inode =>
          rcases hgrant : w.kernel.notifier.grant inode flags with ⟨e | h, n⟩
          · have hsame := Notifier.grant_error hgrant
            subst hsame
            simp only [hgrant]
            exact .inl ⟨_, rfl⟩
          · refine .inr ⟨inode, h, hno, trivial, trivial, rfl, ?_, ?_⟩
            · rw [hgrant]
            · simp only [hgrant]

namespace Interplay

variable {s t u : Interplay} {m : Move}

/-! ## What was read is what was queued -/

/-- The queue holds records that the kernel can write, and what was read is some of them, or one
error. -/
structure Legible (s : Interplay) : Prop where
  queue : ∀ r ∈ s.notifier.queue, r.WellFormed
  batch : (∃ rs : List Record, s.batch = rs.map .ok) ∨ ∃ m, s.batch = [.error m]

theorem legible_start (settings : Settings) (tree : Tree) (limit : Nat) :
    (start settings tree limit).Legible := ⟨nofun, .inl ⟨[], rfl⟩⟩

/-! ## The core -/

/-- What callers, reader and kernel have between them. -/
structure Core where
  settings : Settings
  phase : Phase
  running : Bool
  closing : Bool
  tree : Tree
  table : WatchTable
  notifier : Notifier
  descriptorOpen : Bool
  taken : List Record

def core (s : Interplay) : Core where
  settings := s.watcher.settings
  phase := s.watcher.phase
  running := s.watcher.reader.running
  closing := s.watcher.reader.closing
  tree := s.watcher.kernel.tree
  table := s.table
  notifier := s.notifier
  descriptorOpen := s.descriptorOpen
  taken := s.taken

/-- What a move does to the core. -/
inductive Effect (s : Interplay) (m : Move) (t : Interplay) : Prop
  | still (core : t.core = s.core)
  /-- The reader is done with a record. -/
  | done (r : Record) (mover : m = .reader) (hand : s.reading.record? = some r)
      (after : t.reading.record? = none) (core : s.core = { t.core with taken := r :: t.taken })
  /-- The reader has seen the last record of a watch. -/
  | purge (r : Record) (mover : m = .reader) (hand : s.reading = .taken r)
      (last : r.mask.has Mask.ignored = true) (free : s.tableFree = true) (woken : t.sleepers = [])
      (after : t.reading.record? = none) (taken : s.taken = r :: t.taken)
      (core : t.core = { s.core with table := (s.table.purge r.handle).2, taken := t.taken })
  /-- The reader leaves its records alone, for closing was asked for. -/
  | giveUp (closing : s.watcher.reader.closing = true) (core : t.core = { s.core with taken := [] })
      (after : t.reading = .leaving)
  | read (rs left : List Record) (mover : m = .reader) (empty : s.taken = [])
      (queue : s.notifier.queue = rs ++ left)
      (core : t.core =
        { s.core with notifier := { s.notifier with queue := left }, taken := rs })
  /-- The kernel watches something for a registration. -/
  | grant (i : Nat) (inode : Inode) (flags : Mask) (h : Handle) (mover : m = .call i)
      (isOpen : s.descriptorOpen = true) (granted : (s.notifier.grant inode flags).1 = .ok h)
      (core : t.core = { s.core with notifier := (s.notifier.grant inode flags).2 })
      (asks : ∃ p o wanted known,
        s.calls[i]? = some (Call.add p o (.inside (.asking wanted known))) ∧
          flags = armed wanted known ∧
          s.watcher.kernel.tree.find (!flags.has Mask.dontFollow) p.normalize = .ok inode ∧
          t.calls[i]? = some (Call.add p o (.inside (.told wanted (.ok h)))))
  /-- A registration stores what it was granted. -/
  | store (i : Nat) (p : Path) (o : WatchOptions) (wanted : Mask) (h : Handle) (mover : m = .call i)
      (stage : s.calls[i]? = some (.add p o (.inside (.told wanted (.ok h)))))
      (core : t.core = { s.core with table := s.table.insert p.normalize ⟨h, wanted⟩ })
  | post (r : Record) (mover : m = .queue r) (wellFormed : r.WellFormed)
      (live : s.notifier.isLive r.handle = true) (notLast : ¬ r.mask.has Mask.ignored)
      (core : t.core = { s.core with notifier := s.notifier.post r })
  /-- The kernel drops a watch: its thing is gone, or a removal or the reader has asked for it. -/
  | revoke (h : Handle)
      (by_whom : m = .death h ∨
        (∃ i p, m = .call i ∧ s.calls[i]? = some (Call.remove p (.inside (.found h)))) ∨
        ∃ r, m = .reader ∧ s.reading = .taken r ∧ r.handle = h ∧
          (r.mask.has Mask.moveSelf && r.name.isNone) = true)
      (core : t.core = { s.core with notifier := (s.notifier.revoke h).2 })
  /-- A removal has run out of time. -/
  | forced (i : Nat) (h : Handle) (mover : m = .timeout i)
      (limited : s.watcher.settings.removeTimeout?.isSome = true) (free : s.tableFree = true)
      (core : t.core = { s.core with table := (s.table.removeHandle h).2 })
      (stage : ∃ p, s.calls[i]? = some (Call.remove p (.inside (.waiting h))) ∧
        s.table.owns p.normalize h = true)
  | disk (tree : Tree) (mover : m = .disk tree) (core : t.core = { s.core with tree := tree })
  /-- A `close` says that the reader should end. -/
  | announce (i : Nat) (stage : s.calls[i]? = some (.close .entered))
      (core : t.core = { s.core with closing := true })
  /-- The reader has ended, and says so. -/
  | stop (hand : s.reading = .leaving) (core : t.core = { s.core with running := false })
  /-- The descriptor is closed, by the reader or by a `close`, which then clears the table. -/
  | release (by_whom : s.reading = .stopping ∨ ∃ (i : Nat) (result : Except Failure Unit),
          s.calls[i]? = some (.close (.joined result)))
      (core : t.core =
        { s.core with notifier := .fresh s.notifier.limit, descriptorOpen := false })
      (after : t.reading = .released ∨ ∃ (i : Nat) (result : Except Failure Unit),
        t.calls[i]? = some (.close (.released result)))
  /-- The table is cleared, by the reader or by a `close`. -/
  | clear (by_whom : s.reading = .released ∨
        ∃ (i : Nat) (result : Except Failure Unit),
          s.calls[i]? = some (.close (.released result)))
      (free : s.tableFree = true) (woken : t.sleepers = [])
      (core : t.core = { s.core with table := .empty })
  /-- A `close` is over. -/
  | shut (i : Nat) (result : Except Failure Unit) (mover : m = .call i)
      (stage : s.calls[i]? = some (.close (.cleared result)))
      (core : t.core = { s.core with phase := .closed })

/-! ## A call steps by itself -/

/-- What a call was made for. -/
inductive Request where
  | add (path : Path) (options : WatchOptions)
  | remove (path : Path)
  | list
  | close
deriving DecidableEq, Repr

def Call.request : Call → Request
  | .add p o _ => .add p o
  | .remove p _ => .remove p
  | .list _ => .list
  | .close _ => .close

theorem Call.eq_close_of_request {c : Call} (h : c.request = .close) :
    ∃ closing, c = .close closing := by
  cases c with
  | close closing => exact ⟨closing, rfl⟩
  | add | remove | list => cases h

/-- A call goes from one stage to another.  It touches no other call and nothing of the reader's, and
what it holds was granted to it in this step. -/
structure Passes (s : Interplay) (i : Nat) (c c' : Call) (t : Interplay) : Prop where
  calls : t.calls = s.calls.set i c'
  request : c'.request = c.request
  reading : t.reading = s.reading
  batch : t.batch = s.batch
  held : ∀ h, c'.held? = some h →
    s.descriptorOpen = true ∧ ∃ inode flags, (s.notifier.grant inode flags).1 = .ok h
  sleepers : t.sleepers ⊆ s.sleepers ∨ ∃ p h, s.table.owns p h = true
  phase : c'.holdsPhase = true →
    c.holdsPhase = true ∨ s.phaseFree = true ∧ s.watcher.phase = .running

theorem getElem?_concat_cases {α : Type} {l : List α} {a b : α} {i : Nat}
    (h : (l ++ [a])[i]? = some b) : l[i]? = some b ∨ i = l.length ∧ b = a := by
  rcases Nat.lt_or_ge i l.length with hlt | hge
  · exact .inl ((List.getElem?_append_left hlt).symm.trans h)
  · have hi := (List.getElem?_eq_some_iff.mp h).1
    rw [List.length_append, List.length_singleton] at hi
    obtain rfl : i = l.length := by omega
    rw [List.getElem?_concat_length, Option.some.injEq] at h
    exact .inr ⟨rfl, h.symm⟩

/-- Which calls a move changes. -/
inductive Touches (s : Interplay) (m : Move) (t : Interplay) : Prop
  | none (mover : m.caller? = .none) (calls : t.calls = s.calls) (sleepers : t.sleepers ⊆ s.sleepers)
  | newcomer (c : Call) (mover : m = .begin c) (fresh : c.isFresh = true)
      (calls : t.calls = s.calls ++ [c]) (batch : t.batch = s.batch) (reading : t.reading = s.reading)
      (sleepers : t.sleepers ⊆ s.sleepers)
  | one (i : Nat) (c c' : Call) (mover : m.caller? = some i) (stage : s.calls[i]? = some c)
      (passes : s.Passes i c c' t)

theorem Passes.of_put {i : Nat} {c c' : Call} (calls : t.calls = s.calls.set i c')
    (request : c'.request = c.request) (reading : t.reading = s.reading)
    (batch : t.batch = s.batch) (held : c'.held? = none) (sleepers : t.sleepers ⊆ s.sleepers)
    (phase : c'.holdsPhase = true →
      c.holdsPhase = true ∨ s.phaseFree = true ∧ s.watcher.phase = .running) :
    s.Passes i c c' t :=
  ⟨calls, request, reading, batch, fun h hh => absurd hh (by rw [held]; exact nofun),
    .inl sleepers, phase⟩

/-- Where nothing is touched but the watcher and the call. -/
theorem Passes.of_withWatcher {i : Nat} {c c' : Call} {w : Watcher} (request : c'.request = c.request)
    (held : c'.held? = none) (phase : c'.holdsPhase = true →
      c.holdsPhase = true ∨ s.phaseFree = true ∧ s.watcher.phase = .running) :
    s.Passes i c c' ((s.withWatcher w).put i c') :=
  .of_put rfl request rfl rfl held (List.Subset.refl _) phase

/-- The reader steps by itself too: it touches no call, but may wake those who sleep. -/
structure Reads (s t : Interplay) : Prop where
  calls : t.calls = s.calls
  batch : s.reading ≠ .polling → t.batch = s.batch
  sleepers : t.sleepers ⊆ s.sleepers

theorem Reads.of_turnTo {reading : Reading} (calls : t.calls = s.calls) (batch : t.batch = s.batch)
    (sleepers : t.sleepers = s.sleepers) : s.Reads (t.turnTo reading) :=
  ⟨calls, fun _ => batch, by show t.sleepers ⊆ _; rw [sleepers]; exact List.Subset.refl _⟩

theorem Reads.of_purged {table : WatchTable} {reading : Reading} :
    s.Reads ((s.purged table).turnTo reading) := ⟨rfl, fun _ => rfl, List.nil_subset _⟩

/-- A reader at another place with the same record has taken the same. -/
theorem core_turnTo (s u : Interplay) {reading : Reading} (h : reading.record? = s.reading.record?)
    (batch : u.batch = s.batch) : (u.turnTo reading).core = { u.core with taken := s.taken } := by
  unfold core taken turnTo
  simp only [h, batch]
  rfl

/-- To be done with a record is to have nothing in its place. -/
theorem effect_done {r : Record} (hand : s.reading.record? = some r) {t : Interplay}
    (after : t.reading.record? = none) (batch : t.batch = s.batch)
    (core : s.core = { t.core with taken := s.taken }) : s.Effect .reader t := by
  refine .done r rfl hand after ?_
  rw [core]
  unfold taken
  rw [hand, after, batch]
  rfl

/-! ## The effect of each move -/

theorem effect_of_callStep {i : Nat} {c c' : Call} (stage : s.calls[i]? = some c)
    (step : s.CallStep i m c c' u) : s.Effect m (u.put i c') ∧ s.Passes i c c' (u.put i c') := by
  cases step with
  | addKnocks knock =>
    refine ⟨.still rfl, .of_withWatcher rfl ?_ nofun⟩
    obtain ⟨-, -, rfl⟩ | ⟨-, -, -, rfl⟩ | ⟨-, rfl⟩ := Progress.knock_cases knock
    · rfl
    · rfl
    · rfl
  | addLooks | addFails | addRefused | removeKnocks | removeMisses | removeFinds | removeShutOut
  | removeConfirmed | listKnocks | listReads | closeFindsClosed =>
    exact ⟨.still rfl, .of_withWatcher rfl rfl nofun⟩
  | addAsks answer =>
    rename_i p o wanted known granted kernel
    rcases s.watcher.arm_cases p.normalize (armed wanted known)
      with ⟨f, harm⟩ | ⟨inode, g, -, hopen, -, hfind, hgrant, harm⟩
    · cases harm.symm.trans answer
      exact ⟨.still rfl, .of_withWatcher rfl rfl nofun⟩
    · cases harm.symm.trans answer
      have hi := (List.getElem?_eq_some_iff.mp stage).1
      refine ⟨.grant i inode _ g rfl hopen hgrant rfl
        ⟨p, o, wanted, known, stage, rfl, hfind, List.getElem?_set_self hi⟩,
        rfl, rfl, rfl, rfl, ?_, .inl (List.Subset.refl _), nofun⟩
      rintro h ⟨⟩
      exact ⟨hopen, inode, _, hgrant⟩
  | addStores => exact ⟨.store i _ _ _ _ rfl stage rfl, .of_withWatcher rfl rfl nofun⟩
  | removeAsks =>
    exact ⟨.revoke _ (.inr (.inl ⟨i, _, rfl, stage⟩)) rfl, .of_withWatcher rfl rfl nofun⟩
  | removeSleeps free awake owns =>
    exact ⟨.still rfl, rfl, rfl, rfl, rfl, nofun, .inr ⟨_, _, owns⟩, nofun⟩
  | removeTimesOut => exact ⟨.still rfl, .of_put rfl rfl rfl rfl rfl List.erase_subset nofun⟩
  | removeForces free asleep limited owns =>
    exact ⟨.forced i _ rfl limited free rfl ⟨_, stage, owns⟩,
      .of_put rfl rfl rfl rfl rfl (List.nil_subset _) nofun⟩
  | closeEnters free running =>
    exact ⟨.still rfl, .of_withWatcher rfl rfl fun _ => .inr ⟨free, running⟩⟩
  | closeAnnounces => exact ⟨.announce i stage rfl, .of_withWatcher rfl rfl fun _ => .inl rfl⟩
  | closeWakes | closeMisses | closeJoins | closeFails | closeUnheard =>
    exact ⟨.still rfl, .of_withWatcher rfl rfl fun _ => .inl rfl⟩
  | closeReleases =>
    rename_i result
    have hafter := List.getElem?_set_self (a := Call.close (.released result))
      (List.getElem?_eq_some_iff.mp stage).1
    exact ⟨.release (.inr ⟨i, result, stage⟩) rfl (.inr ⟨i, result, hafter⟩),
      .of_withWatcher rfl rfl fun _ => .inl rfl⟩
  | closeClears free =>
    exact ⟨.clear (.inr ⟨i, _, stage⟩) free rfl rfl,
      .of_put rfl rfl rfl rfl rfl (List.nil_subset _) fun _ => .inl rfl⟩
  | closeEnds => exact ⟨.shut i _ rfl stage rfl, .of_withWatcher rfl rfl fun _ => .inl rfl⟩

theorem effect_of_readerStep (legible : s.Legible) {hand : Reading} (here : s.reading = hand)
    (step : s.ReaderStep hand t) : s.Effect .reader t ∧ s.Reads t := by
  have hrecord : s.reading.record? = hand.record? := by rw [here]
  cases step with
  | take r rest batch =>
    refine ⟨.still ?_, rfl, fun hne => absurd here hne, List.Subset.refl _⟩
    unfold core taken
    rw [hrecord, batch]
    rfl
  | garbled m rest batch =>
    refine ⟨.still ?_, rfl, fun hne => absurd here hne, List.Subset.refl _⟩
    unfold core taken
    rw [hrecord]
    rcases legible.batch with ⟨rs, hrs⟩ | ⟨m', hm'⟩
    · rw [hrs] at batch
      cases rs <;> simp at batch
    · rw [hm']
      rfl
  | read batch isOpen queued =>
    have happend := Notifier.batch_append s.watcher.settings.readBufferLength s.notifier.queue
    refine ⟨.read _ _ rfl ?_ happend.symm ?_, rfl, fun hne => absurd here hne,
      List.Subset.refl _⟩
    · unfold taken
      rw [hrecord, batch]
      rfl
    · have hitems := Reader.filterMap_itemsOf fun r hr =>
        legible.queue r (happend ▸ List.mem_append_left _ hr)
      unfold core taken
      rw [hrecord, ← hitems]
      rfl
  | lost r | covered r | silent r | stale r | hand r =>
    exact ⟨effect_done hrecord rfl rfl rfl, .of_turnTo rfl rfl rfl⟩
  | last r told last free =>
    refine ⟨.purge r rfl here last free rfl rfl ?_ rfl, .of_purged⟩
    unfold taken
    rw [hrecord]
    rfl
  | drop r told more moved isOpen =>
    exact ⟨.revoke r.handle (.inr (.inr ⟨r, rfl, here, rfl, moved⟩))
      (core_turnTo s _ hrecord.symm rfl), .of_turnTo rfl rfl rfl⟩
  | fails | settle | report | resume | nest | topmost | pass | uncovered | translate | keep | go =>
    exact ⟨.still (core_turnTo s _ hrecord.symm rfl), .of_turnTo rfl rfl rfl⟩
  | stop => exact ⟨.stop here (core_turnTo s _ hrecord.symm rfl), .of_turnTo rfl rfl rfl⟩
  | release =>
    exact ⟨.release (.inl here) (core_turnTo s _ hrecord.symm rfl) (.inl rfl),
      .of_turnTo rfl rfl rfl⟩
  | clear free =>
    exact ⟨.clear (.inl here) free rfl (core_turnTo s _ hrecord.symm rfl), .of_purged⟩

/-- **What a move does**, to the core and to calls. -/
theorem effect_of_fire (legible : s.Legible) (h : s.fire m = some t) :
    s.Effect m t ∧ s.Touches m t := by
  cases step_of_fire h with
  | begin c fresh => exact ⟨.still rfl, .newcomer c rfl fresh rfl rfl rfl (List.Subset.refl _)⟩
  | call stage step =>
    obtain ⟨heffect, hpasses⟩ := effect_of_callStep stage step
    exact ⟨heffect, .one _ _ _ step.caller stage hpasses⟩
  | reader step =>
    obtain ⟨heffect, hreads⟩ := effect_of_readerStep legible rfl step
    exact ⟨heffect, .none rfl hreads.calls hreads.sleepers⟩
  | giveUpReport f rest closing | giveUpEvent r e closing =>
    exact ⟨.giveUp closing rfl rfl, .none rfl rfl (List.Subset.refl _)⟩
  | fault f hand | leave hand =>
    exact ⟨.still (core_turnTo s _ (by rw [hand]; rfl) rfl), .none rfl rfl (List.Subset.refl _)⟩
  | queue r wellFormed live more =>
    exact ⟨.post r rfl wellFormed live more rfl, .none rfl rfl (List.Subset.refl _)⟩
  | death g => exact ⟨.revoke g (.inl rfl) rfl, .none rfl rfl (List.Subset.refl _)⟩
  | disk tree => exact ⟨.disk tree rfl rfl, .none rfl rfl (List.Subset.refl _)⟩
  | takeEvents | takeErrors | abandonEvents | abandonErrors =>
    exact ⟨.still rfl, .none rfl rfl (List.Subset.refl _)⟩

/-- **Where a call is after a move**: where it was, at its beginning, or one stage on. -/
theorem call_of_touches (htouches : s.Touches m t) {i : Nat} {c : Call}
    (h : t.calls[i]? = some c) : s.calls[i]? = some c ∨
      (i = s.calls.length ∧ m = .begin c ∧ c.isFresh = true) ∨
      ∃ d, m.caller? = some i ∧ s.calls[i]? = some d ∧ s.Passes i d c t := by
  cases htouches with
  | none _ calls _ => exact .inl (calls ▸ h)
  | newcomer e mover fresh calls _ _ _ =>
    rcases getElem?_concat_cases (calls ▸ h) with hold | ⟨hi, rfl⟩
    · exact .inl hold
    · exact .inr (.inl ⟨hi, mover, fresh⟩)
  | one j d e mover stage passes =>
    by_cases hij : j = i
    · subst hij
      obtain ⟨hj, -⟩ := List.getElem?_eq_some_iff.mp stage
      have hcalls := passes.calls
      rw [hcalls, List.getElem?_set_self hj, Option.some.injEq] at h
      subst h
      exact .inr (.inr ⟨d, mover, stage, passes⟩)
    · rw [passes.calls, List.getElem?_set_ne hij] at h
      exact .inl h

/-- **Where a call comes from**: it was there before the move, was made by it, or has made a step. -/
theorem call_of_fire (hfire : s.fire m = some t) {i : Nat} {c : Call} (h : t.calls[i]? = some c) :
    s.calls[i]? = some c ∨ (m = .begin c ∧ c.isFresh = true) ∨
      ∃ d u, s.calls[i]? = some d ∧ s.CallStep i m d c u ∧ t = u.put i c := by
  cases step_of_fire hfire with
  | begin d fresh =>
    rcases getElem?_concat_cases h with hold | ⟨-, rfl⟩
    · exact .inl hold
    · exact .inr (.inl ⟨rfl, fresh⟩)
  | call stage step =>
    rename_i j d d' u
    have hcalls : u.calls.set j d' = s.calls.set j d' := by rw [step.calls]
    have h : (u.calls.set j d')[i]? = some c := h
    rw [hcalls] at h
    by_cases hij : j = i
    · subst hij
      rw [List.getElem?_set_self (List.getElem?_eq_some_iff.mp stage).1, Option.some.injEq] at h
      subst h
      exact .inr (.inr ⟨d, u, stage, step, rfl⟩)
    · rw [List.getElem?_set_ne hij] at h
      exact .inl h
  | reader step => exact .inl (step.calls ▸ h)
  | _ => exact .inl h

/-- A call whose turn it is not stays where it is. -/
theorem call_stays (htouches : s.Touches m t) {i : Nat} {c : Call} (h : s.calls[i]? = some c)
    (hm : m.caller? ≠ some i) : t.calls[i]? = some c := by
  cases htouches with
  | none _ calls _ => exact calls ▸ h
  | newcomer _ _ _ calls _ _ _ =>
    rw [calls, List.getElem?_append_left (List.getElem?_eq_some_iff.mp h).1]
    exact h
  | one j d e mover stage passes =>
    have hij : j ≠ i := by
      rintro rfl
      exact hm mover
    rw [passes.calls, List.getElem?_set_ne hij]
    exact h

/-- A call stays what it was made for. -/
theorem request_of_touches (htouches : s.Touches m t) {i : Nat} {c : Call}
    (h : s.calls[i]? = some c) : ∃ d, t.calls[i]? = some d ∧ d.request = c.request := by
  by_cases hm : m.caller? = some i
  · cases htouches with
    | none mover _ _ =>
      rw [mover] at hm
      cases hm
    | newcomer _ mover _ _ _ _ _ =>
      subst mover
      cases hm
    | one j d e mover stage passes =>
      rw [hm, Option.some.injEq] at mover
      subst mover
      rw [stage, Option.some.injEq] at h
      subst h
      have hi := (List.getElem?_eq_some_iff.mp stage).1
      exact ⟨e, by rw [passes.calls, List.getElem?_set_self hi], passes.request⟩
  · exact ⟨c, call_stays htouches h hm, rfl⟩

/-- A call that has returned makes no step. -/
theorem fire_returned {i : Nat} {c : Call} (h : s.calls[i]? = some c)
    (hreturned : c.hasReturned = true) (hm : m.caller? = some i) : s.fire m = none := by
  cases m with
  | call j =>
    cases hm
    simp only [fire, fireCall, h]
    unfold Call.hasReturned at hreturned
    split at hreturned <;> first | rfl | cases hreturned
  | refuse j e | timeout j | unheard j f =>
    cases hm
    simp only [fire, h]
    unfold Call.hasReturned at hreturned
    split at hreturned <;> first | rfl | cases hreturned
  | _ => cases hm

theorem call_stays_returned (legible : s.Legible) (hfire : s.fire m = some t) {i : Nat} {c : Call}
    (h : s.calls[i]? = some c) (hreturned : c.hasReturned = true) : t.calls[i]? = some c := by
  refine call_stays (effect_of_fire legible hfire).2 h fun hm => ?_
  rw [fire_returned h hreturned hm] at hfire
  cases hfire

/-! ## The table and the notifier -/

theorem mem_held {i : Nat} {p : Path} {o : WatchOptions} {wanted : Mask} {h : Handle}
    (hcall : s.calls[i]? = some (.add p o (.inside (.told wanted (.ok h))))) : h ∈ s.held :=
  List.mem_filterMap.mpr ⟨_, List.mem_of_getElem? hcall, rfl⟩

/-- What a move does to the table. -/
inductive TableEffect (s t : Interplay) : Prop
  | still (table : t.table = s.table)
  | remove (h : Handle) (table : t.table = (s.table.removeHandle h).2)
  | store (p : Path) (w : Watch) (held : w.handle ∈ s.held) (table : t.table = s.table.insert p w)
  | clear (table : t.table = .empty)

theorem Effect.table (heffect : s.Effect m t) : s.TableEffect t := by
  cases heffect with
  | still core | giveUp _ core | read _ _ _ _ _ core | grant _ _ _ _ _ _ _ core
  | post _ _ _ _ _ core | revoke _ _ core | disk _ _ core | announce _ _ core | stop _ core
  | release _ core | shut _ _ _ _ core => exact .still (congrArg Core.table core)
  | done _ _ _ _ core => exact .still (congrArg Core.table core).symm
  | purge r _ _ _ _ _ _ _ core => exact .remove r.handle (congrArg Core.table core)
  | forced _ h _ _ _ core => exact .remove h (congrArg Core.table core)
  | store _ p _ wanted h _ stage core =>
    exact .store p.normalize ⟨h, wanted⟩ (mem_held stage) (congrArg Core.table core)
  | clear _ _ _ core => exact .clear (congrArg Core.table core)

/-- A move that changes the table, and who makes it. -/
inductive Alters (s : Interplay) (m : Move) (t : Interplay) : Prop
  /-- The reader has seen the last record of a watch. -/
  | purge (r : Record) (mover : m = .reader) (hand : s.reading = .taken r)
      (last : r.mask.has Mask.ignored = true) (table : t.table = (s.table.removeHandle r.handle).2)
  /-- A removal has run out of time. -/
  | force (j : Nat) (q : Path) (g : Handle) (mover : m = .timeout j)
      (stage : s.calls[j]? = some (.remove q (.inside (.waiting g))))
      (owned : s.table.owns q.normalize g = true) (table : t.table = (s.table.removeHandle g).2)
  | store (j : Nat) (q : Path) (o : WatchOptions) (wanted : Mask) (g : Handle) (mover : m = .call j)
      (stage : s.calls[j]? = some (.add q o (.inside (.told wanted (.ok g)))))
      (table : t.table = s.table.insert q.normalize ⟨g, wanted⟩)
  /-- The reader has ended, or a `close` is about to. -/
  | wipe (by_whom : (m = .reader ∧ s.reading = .released) ∨
        ∃ (j : Nat) (result : Except Failure Unit),
          m = .call j ∧ s.calls[j]? = some (.close (.released result)))
      (table : t.table = .empty)

theorem altered_of_callStep {i : Nat} {c c' : Call} (stage : s.calls[i]? = some c)
    (step : s.CallStep i m c c' u) : u.table = s.table ∨ s.Alters m (u.put i c') := by
  cases step with
  | addStores => exact .inr (.store i _ _ _ _ rfl stage rfl)
  | removeForces free asleep limited owns => exact .inr (.force i _ _ rfl stage owns rfl)
  | closeClears => exact .inr (.wipe (.inr ⟨i, _, rfl, stage⟩) rfl)
  | _ => exact .inl rfl

theorem altered_of_readerStep (step : s.ReaderStep s.reading t) :
    t.table = s.table ∨ s.Alters .reader t := by
  generalize hand : s.reading = place at step
  cases step with
  | last r told last => exact .inr (.purge r rfl hand last rfl)
  | clear => exact .inr (.wipe (.inl ⟨rfl, hand⟩) rfl)
  | _ => exact .inl rfl

/-- **Who changes the table**: every other move leaves it as it is. -/
theorem altered_of_fire (hfire : s.fire m = some t) : t.table = s.table ∨ s.Alters m t := by
  cases step_of_fire hfire with
  | call stage step => exact altered_of_callStep stage step
  | reader step => exact altered_of_readerStep step
  | _ => exact .inl rfl

/-- What a move does to what the kernel watches and has queued. -/
inductive NotifierEffect (s t : Interplay) : Prop
  | still (notifier : t.notifier = s.notifier) (same : t.descriptorOpen = s.descriptorOpen)
  | read (rs left : List Record) (queue : s.notifier.queue = rs ++ left)
      (notifier : t.notifier = { s.notifier with queue := left })
      (same : t.descriptorOpen = s.descriptorOpen)
  | grant (inode : Inode) (flags : Mask) (h : Handle) (isOpen : s.descriptorOpen = true)
      (granted : (s.notifier.grant inode flags).1 = .ok h)
      (notifier : t.notifier = (s.notifier.grant inode flags).2)
      (same : t.descriptorOpen = s.descriptorOpen)
  | post (r : Record) (live : s.notifier.isLive r.handle = true)
      (notifier : t.notifier = s.notifier.post r) (same : t.descriptorOpen = s.descriptorOpen)
  | revoke (h : Handle) (notifier : t.notifier = (s.notifier.revoke h).2)
      (same : t.descriptorOpen = s.descriptorOpen)
  | release (notifier : t.notifier = .fresh s.notifier.limit) (closed : t.descriptorOpen = false)

theorem Effect.notifier (heffect : s.Effect m t) : s.NotifierEffect t := by
  cases heffect with
  | still core | purge _ _ _ _ _ _ _ _ core | giveUp _ core | store _ _ _ _ _ _ _ core
  | forced _ _ _ _ _ core | disk _ _ core | announce _ _ core | stop _ core | clear _ _ _ core
  | shut _ _ _ _ core =>
    exact .still (congrArg Core.notifier core) (congrArg Core.descriptorOpen core)
  | done _ _ _ _ core =>
    exact .still (congrArg Core.notifier core).symm (congrArg Core.descriptorOpen core).symm
  | read rs left _ _ queue core =>
    exact .read rs left queue (congrArg Core.notifier core) (congrArg Core.descriptorOpen core)
  | grant _ inode flags h _ isOpen granted core =>
    exact .grant inode flags h isOpen granted (congrArg Core.notifier core)
      (congrArg Core.descriptorOpen core)
  | post r _ _ live _ core =>
    exact .post r live (congrArg Core.notifier core) (congrArg Core.descriptorOpen core)
  | revoke h _ core =>
    exact .revoke h (congrArg Core.notifier core) (congrArg Core.descriptorOpen core)
  | release _ core =>
    exact .release (congrArg Core.notifier core) (congrArg Core.descriptorOpen core)

end Interplay

end FileWatch
