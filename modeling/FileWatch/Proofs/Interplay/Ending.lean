import FileWatch.Proofs.Interplay.Order
import FileWatch.Proofs.Interplay.Stages

/-!
# How a watcher ends

Two parties can end a watcher, the reader and a `close`, and both do it in the same order: they say
so, close the descriptor, and clear the table.  Where one of them stands tells what has been done
(`Ending`); in particular the table is cleared after the descriptor was closed.  From then on nothing
can be put into the table, since a registration that has not been granted a handle is not granted
one any more, and nobody who was granted one could have held the table while it was cleared (`Bare`).
-/

namespace FileWatch

namespace Interplay

variable {s t u : Interplay} {m : Move}

/-! ## A bare watcher -/

theorem Onward.not_running (onward : s.Onward t) (h : s.watcher.reader.running = false) :
    t.watcher.reader.running = false :=
  Bool.eq_false_iff.mpr fun hrunning => by
    rw [onward.running hrunning] at h
    cases h

theorem Onward.not_open (onward : s.Onward t) (h : s.descriptorOpen = false) :
    t.descriptorOpen = false :=
  Bool.eq_false_iff.mpr fun hopen => by
    rw [onward.descriptorOpen hopen] at h
    cases h

/-- Nothing is watched, nothing can be, and nobody sleeps. -/
structure Bare (s : Interplay) : Prop where
  table : s.table = .empty
  descriptorOpen : s.descriptorOpen = false
  held : s.held = []
  sleepers : s.sleepers = []

theorem Bare.owns (bare : s.Bare) (p : Path) (h : Handle) : s.table.owns p h = false := by
  rw [bare.table]
  rfl

theorem held_eq_nil_of_touches (closed : s.descriptorOpen = false) (held : s.held = [])
    (htouches : s.Touches m t) : t.held = [] := by
  refine List.eq_nil_iff_forall_not_mem.mpr fun h hh => ?_
  rcases held_of_touches htouches hh with hheld | ⟨hopen, -⟩
  · rw [held] at hheld
    cases hheld
  · rw [closed] at hopen
    cases hopen

/-- **What is bare stays bare.** -/
theorem Bare.of_fire (bare : s.Bare) (heffect : s.Effect m t) (htouches : s.Touches m t) :
    t.Bare := by
  refine ⟨?_, ?_, held_eq_nil_of_touches bare.descriptorOpen bare.held htouches, ?_⟩
  · cases heffect.table with
    | still table => exact table.trans bare.table
    | remove h table =>
      rw [table, bare.table]
      rfl
    | store p w held table =>
      rw [bare.held] at held
      cases held
    | clear table => exact table
  · exact (onward_of_effect heffect).not_open bare.descriptorOpen
  · rw [← List.subset_nil]
    cases htouches with
    | none _ _ sleepers => exact bare.sleepers ▸ sleepers
    | newcomer _ _ _ _ _ _ sleepers => exact bare.sleepers ▸ sleepers
    | one i c c' _ _ passes =>
      rcases passes.sleepers with hsub | ⟨p, h, howns⟩
      · exact bare.sleepers ▸ hsub
      · rw [bare.owns] at howns
        cases howns

/-- The table is cleared after the descriptor was closed. -/
theorem bare_of_clear (closed : s.descriptorOpen = false) (free : s.tableFree = true)
    (htouches : s.Touches m t) (woken : t.sleepers = [])
    (core : t.core = { s.core with table := .empty }) : t.Bare where
  table := congrArg Core.table core
  descriptorOpen := (congrArg Core.descriptorOpen core).trans closed
  held := held_eq_nil_of_touches closed (held_of_tableFree free) htouches
  sleepers := woken

/-! ## What a stage tells -/

/-- What the place of the reader tells. -/
def Reading.Tells (s : Interplay) : Reading → Prop
  | .leaving => s.batch = []
  | .stopping => s.batch = [] ∧ s.watcher.reader.running = false
  | .released => s.batch = [] ∧ s.watcher.reader.running = false ∧ s.descriptorOpen = false
  | .cleared => s.batch = [] ∧ s.watcher.reader.running = false ∧ s.Bare
  | .gone => s.batch = [] ∧ s.watcher.reader.running = false ∧ s.Bare
  | _ => True

/-- What the stage of a `close` tells. -/
def Closing.Tells (s : Interplay) : Closing → Prop
  | .arriving => True
  | .entered => True
  | .announced => s.watcher.reader.closing = true
  | .woken _ => s.watcher.reader.closing = true
  | .joined _ => s.watcher.reader.closing = true
  | .released _ => s.watcher.reader.closing = true ∧ s.descriptorOpen = false
  | .cleared _ => s.watcher.reader.closing = true ∧ s.Bare
  | .returned _ => s.watcher.phase = .closed

/-- The reader and every `close` are where they say they are, and only one `close` is at work. -/
structure Ending (s : Interplay) : Prop where
  reading : s.reading.Tells s
  closes : ∀ {i : Nat} {closing}, s.calls[i]? = some (.close closing) → closing.Tells s
  closed : s.watcher.phase = .closed → s.phaseFree = true ∧ s.Bare
  alone : ∀ {i j : Nat} {c d : Call}, s.calls[i]? = some c → s.calls[j]? = some d →
    c.holdsPhase = true → d.holdsPhase = true → i = j

/-- The table is wiped after the descriptor was closed. -/
theorem Ending.closed_of_wipe (ending : s.Ending)
    (by_whom : (m = .reader ∧ s.reading = .released) ∨
      ∃ (j : Nat) (result : Except Failure Unit),
        m = .call j ∧ s.calls[j]? = some (.close (.released result))) :
    s.descriptorOpen = false := by
  rcases by_whom with ⟨-, released⟩ | ⟨j, result, -, stage⟩
  · have htells := ending.reading
    rw [released] at htells
    exact htells.2.2
  · exact (ending.closes stage).2

theorem ending_start (settings : Settings) (tree : Tree) (limit : Nat) :
    (start settings tree limit).Ending := ⟨trivial, nofun, nofun, nofun⟩

theorem Reading.Tells.forth {reading : Reading} (h : reading.Tells s) (onward : s.Onward t)
    (bare : s.Bare → t.Bare) (batch : t.batch = s.batch) : reading.Tells t := by
  have hrunning := onward.not_running
  cases reading with
  | leaving => exact batch.trans h
  | stopping => exact ⟨batch.trans h.1, hrunning h.2⟩
  | released => exact ⟨batch.trans h.1, hrunning h.2.1, onward.not_open h.2.2⟩
  | cleared => exact ⟨batch.trans h.1, hrunning h.2.1, bare h.2.2⟩
  | gone => exact ⟨batch.trans h.1, hrunning h.2.1, bare h.2.2⟩
  | _ => trivial

theorem Closing.Tells.forth {closing : Closing} (h : closing.Tells s) (onward : s.Onward t)
    (bare : s.Bare → t.Bare) : closing.Tells t := by
  have hopen := onward.not_open
  cases closing with
  | arriving => trivial
  | entered => trivial
  | announced => exact onward.closing h
  | woken => exact onward.closing h
  | joined => exact onward.closing h
  | released => exact ⟨onward.closing h.1, hopen h.2⟩
  | cleared => exact ⟨onward.closing h.1, bare h.2⟩
  | returned => exact onward.phase h

/-- A reader that does not end has nothing to tell, and ending is done in four steps. -/
theorem tells_of_readerStep (ending : s.Ending) {hand : Reading} (here : s.reading = hand)
    (step : s.ReaderStep hand t) : t.reading.Tells t := by
  have htells : hand.Tells s := here ▸ ending.reading
  cases step with
  | stop => exact ⟨htells, rfl⟩
  | release => exact ⟨htells.1, htells.2, rfl⟩
  | clear free =>
    exact ⟨htells.1, htells.2.1, rfl, htells.2.2, held_of_tableFree free, rfl⟩
  | go =>
    have hbare := htells.2.2
    exact ⟨htells.1, htells.2.1, hbare.table, hbare.descriptorOpen, hbare.held, hbare.sleepers⟩
  | read =>
    rw [here]
    trivial
  | _ => trivial

theorem calls_put_self {i : Nat} {c c' d : Call} (hcall : s.calls[i]? = some c)
    (h : (s.calls.set i c')[i]? = some d) : d = c' := by
  obtain ⟨hi, -⟩ := List.getElem?_eq_some_iff.mp hcall
  rw [List.getElem?_set_self hi, Option.some.injEq] at h
  exact h.symm

/-- A `close` comes from one stage to the next. -/
theorem tells_of_callStep (ending : s.Ending) {i : Nat} {closing closing' : Closing}
    (htouches : s.Touches m (u.put i (.close closing')))
    (hcall : s.calls[i]? = some (.close closing))
    (step : s.CallStep i m (.close closing) (.close closing') u) :
    closing'.Tells (u.put i (.close closing')) := by
  have htells := ending.closes hcall
  cases step with
  | closeFindsClosed _ closed => exact closed
  | closeEnters => trivial
  | closeAnnounces | closeEnds => rfl
  | closeWakes | closeMisses | closeJoins | closeFails | closeUnheard => exact htells
  | closeReleases => exact ⟨htells, rfl⟩
  | closeClears free => exact ⟨htells.1, bare_of_clear htells.2 free htouches rfl rfl⟩

theorem not_holdsPhase (hfree : s.phaseFree = true) {i : Nat} {c : Call}
    (hcall : s.calls[i]? = some c) : c.holdsPhase = false := by
  simpa using List.all_eq_true.mp hfree c (List.mem_of_getElem? hcall)

theorem phaseFree_iff : s.phaseFree = true ↔
    ∀ {i : Nat} {c : Call}, s.calls[i]? = some c → c.holdsPhase = false := by
  refine ⟨fun hfree _ _ hcall => not_holdsPhase hfree hcall, fun h => ?_⟩
  refine List.all_eq_true.mpr fun c hc => ?_
  obtain ⟨i, hi⟩ := List.mem_iff_getElem?.mp hc
  rw [h hi]
  rfl

theorem not_holdsPhase_of_isFresh {c : Call} (fresh : c.isFresh = true) : c.holdsPhase = false := by
  unfold Call.isFresh at fresh
  split at fresh <;> first | rfl | cases fresh

theorem tells_reading_of_fire (ending : s.Ending) (heffect : s.Effect m t)
    (htouches : s.Touches m t) (hfire : s.fire m = some t) : t.reading.Tells t := by
  have hforth : t.batch = s.batch → s.reading.Tells t :=
    ending.reading.forth (onward_of_effect heffect) fun bare => bare.of_fire heffect htouches
  cases step_of_fire hfire with
  | call stage step =>
    have passes := (effect_of_callStep stage step).2
    rw [passes.reading]
    exact hforth passes.batch
  | reader step => exact tells_of_readerStep ending rfl step
  | giveUpReport | giveUpEvent => rfl
  | fault => trivial
  | leave hand batch => exact batch
  | _ => exact hforth rfl

theorem tells_closes_of_fire (ending : s.Ending) (heffect : s.Effect m t)
    (htouches : s.Touches m t) (hfire : s.fire m = some t) {i : Nat} {closing : Closing}
    (hcall : t.calls[i]? = some (.close closing)) : closing.Tells t := by
  rcases call_of_fire hfire hcall with hsame | ⟨-, fresh⟩ | ⟨d, u, stage, step, rfl⟩
  · exact (ending.closes hsame).forth (onward_of_effect heffect) fun bare =>
      bare.of_fire heffect htouches
  · cases closing <;> trivial
  · obtain ⟨before, rfl⟩ := Call.eq_close_of_request (effect_of_callStep stage step).2.request.symm
    exact tells_of_callStep ending htouches stage step

theorem alone_of_touches (ending : s.Ending) (htouches : s.Touches m t) {i j : Nat} {c d : Call}
    (hc : t.calls[i]? = some c) (hd : t.calls[j]? = some d) (hci : c.holdsPhase = true)
    (hdj : d.holdsPhase = true) : i = j := by
  -- A call that begins to hold the phase found that nobody did.
  have hnew : ∀ {i j : Nat} {c d e : Call}, s.Passes i e c t → s.calls[i]? = some e →
      c.holdsPhase = true → s.calls[j]? = some d → d.holdsPhase = true → i = j := by
    intro i j c d e passes stage hc hd hdj
    rcases passes.phase hc with he | ⟨hfree, -⟩
    · exact ending.alone stage hd he hdj
    · rw [not_holdsPhase hfree hd] at hdj
      cases hdj
  rcases call_of_touches htouches hc with hc' | ⟨-, -, fresh⟩ | ⟨e, mover, stage, passes⟩
  · rcases call_of_touches htouches hd with hd' | ⟨-, -, fresh⟩ | ⟨e, -, stage, passes⟩
    · exact ending.alone hc' hd' hci hdj
    · rw [not_holdsPhase_of_isFresh fresh] at hdj
      cases hdj
    · exact (hnew passes stage hdj hc' hci).symm
  · rw [not_holdsPhase_of_isFresh fresh] at hci
    cases hci
  · rcases call_of_touches htouches hd with hd' | ⟨-, -, fresh⟩ | ⟨e', mover', -, -⟩
    · exact hnew passes stage hci hd' hdj
    · rw [not_holdsPhase_of_isFresh fresh] at hdj
      cases hdj
    · rw [mover, Option.some.injEq] at mover'
      exact mover'

/-- While the watcher is closed, nobody holds the phase. -/
theorem phaseFree_of_touches (hfree : s.phaseFree = true) (hclosed : s.watcher.phase = .closed)
    (htouches : s.Touches m t) : t.phaseFree = true := by
  refine phaseFree_iff.mpr fun {i c} hcall => ?_
  rcases call_of_touches htouches hcall with hsame | ⟨-, -, fresh⟩ | ⟨d, -, stage, passes⟩
  · exact not_holdsPhase hfree hsame
  · exact not_holdsPhase_of_isFresh fresh
  · refine Bool.eq_false_iff.mpr fun hholds => ?_
    rcases passes.phase hholds with hd | ⟨-, hrunning⟩
    · rw [not_holdsPhase hfree stage] at hd
      cases hd
    · rw [hclosed] at hrunning
      cases hrunning

/-- Only a `close` that is over has closed the watcher. -/
theorem phase_of_effect (heffect : s.Effect m t) (hrunning : s.watcher.phase = .running)
    (hclosed : t.watcher.phase = .closed) : ∃ (i : Nat) (result : Except Failure Unit),
      m = .call i ∧ s.calls[i]? = some (.close (.cleared result)) := by
  have hcontra : t.core.phase ≠ s.core.phase := by
    show t.watcher.phase ≠ s.watcher.phase
    rw [hrunning, hclosed]
    exact nofun
  cases heffect with
  | still core | purge r _ _ _ _ _ _ _ core | giveUp _ core | read rs left _ _ _ core
  | grant i inode flags h _ _ _ core | store i p o wanted h _ _ core | post r _ _ _ _ core
  | revoke h _ core | forced i h _ _ _ core | disk tree _ core | announce i _ core | stop _ core
  | release _ core | clear _ _ _ core =>
    rw [core] at hcontra
    exact absurd rfl hcontra
  | done r _ _ _ core =>
    rw [core] at hcontra
    exact absurd rfl hcontra
  | shut i result mover stage _ => exact ⟨i, result, mover, stage⟩

theorem ending_of_fire (legible : s.Legible) (ending : s.Ending) (hfire : s.fire m = some t) :
    t.Ending := by
  obtain ⟨heffect, htouches⟩ := effect_of_fire legible hfire
  refine ⟨tells_reading_of_fire ending heffect htouches hfire,
    tells_closes_of_fire ending heffect htouches hfire, fun hclosed => ?_,
    alone_of_touches ending htouches⟩
  cases hphase : s.watcher.phase with
  | closed =>
    obtain ⟨hfree, hbare⟩ := ending.closed hphase
    exact ⟨phaseFree_of_touches hfree hphase htouches, hbare.of_fire heffect htouches⟩
  | running =>
    obtain ⟨i, result, rfl, hcleared⟩ := phase_of_effect heffect hphase hclosed
    refine ⟨phaseFree_iff.mpr fun {j c} hcall => ?_,
      (ending.closes hcleared).2.of_fire heffect htouches⟩
    obtain ⟨c', u, step, rfl⟩ := callStep_of_fire hcleared rfl hfire
    cases step
    by_cases hij : i = j
    · subst hij
      cases calls_put_self hcleared hcall
      rfl
    · have hsame : s.calls[j]? = some c := by
        rw [← hcall]
        exact (List.getElem?_set_ne hij).symm
      exact Bool.eq_false_iff.mpr fun hholds => hij (ending.alone hcleared hsame rfl hholds)

theorem Reachable.ending (hs : Reachable s) : s.Ending := by
  suffices h : s.Legible ∧ s.Ending from h.2
  refine hs.induction (P := fun s => s.Legible ∧ s.Ending) (fun settings tree limit => ?_)
    fun h hfire => ?_
  · exact ⟨legible_start settings tree limit, ending_start settings tree limit⟩
  · exact ⟨legible_of_fire h.1 hfire, ending_of_fire h.1 h.2 hfire⟩

end Interplay

end FileWatch
