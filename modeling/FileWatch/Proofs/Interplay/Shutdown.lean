import Mathlib
import FileWatch.Proofs.Interplay.Ending

/-!
# Nothing is left behind

A watcher ends with a table that is cleared after the descriptor was closed, by the reader or by a
`close` (`Swept`).  From then on it is bare.  A registration that has not asked the kernel yet is
doomed, whatever it has found out before (`Doomed`); a removal that waits has nothing to wait for.  So
every call has a next step, or waits for somebody who has one, and each step brings some call nearer
to its end (`exists_step`): all calls return.

A call that is made after a `close` has returned is turned away at the door (`TurnedAway`).
-/

namespace FileWatch

namespace Interplay

variable {s t u : Interplay} {m : Move}

/-! ## When the table is cleared -/

/-- The step that clears the table, after the descriptor was closed. -/
def Sweeps (s : Interplay) (m : Move) : Prop :=
  m = .reader ∧ s.reading = .released ∨
    ∃ i result, m = .call i ∧ s.calls[i]? = some (.close (.released result))

/-- The table has been cleared. -/
def Swept (s : Interplay) : Prop :=
  s.reading = .cleared ∨ s.reading = .gone ∨
    (∃ (i : Nat) (result : Except Failure Unit), s.calls[i]? = some (.close (.cleared result))) ∨
    s.watcher.phase = .closed

theorem Swept.bare (ending : s.Ending) (swept : s.Swept) : s.Bare := by
  have htells := ending.reading
  rcases swept with hcleared | hgone | ⟨i, result, hcall⟩ | hclosed
  · rw [hcleared] at htells
    exact htells.2.2
  · rw [hgone] at htells
    exact htells.2.2
  · exact (ending.closes hcall).2
  · exact (ending.closed hclosed).2

theorem swept_of_sweeps (sweeps : s.Sweeps m) (hfire : s.fire m = some t) : t.Swept := by
  rcases sweeps with ⟨rfl, hreleased⟩ | ⟨i, result, rfl, hcall⟩
  · cases readerStep_of_fire hreleased hfire with
    | clear => exact .inl rfl
  · obtain ⟨c, u, step, rfl⟩ := callStep_of_fire hcall rfl hfire
    have hafter := step.after hcall
    cases step
    exact .inr (.inr (.inl ⟨i, result, hafter⟩))

/-- A reader that has cleared the table only has to go. -/
theorem reading_of_fire (hfire : s.fire m = some t) (hs : s.reading = .cleared ∨ s.reading = .gone) :
    t.reading = .cleared ∨ t.reading = .gone := by
  have hturn := turn_of_fire hfire
  generalize t.reading = after at hturn ⊢
  rcases hs with hcleared | hgone
  · rw [hcleared] at hturn
    cases hturn with
    | stays => exact .inl rfl
    | go => exact .inr rfl
  · rw [hgone] at hturn
    cases hturn with
    | stays => exact .inr rfl

theorem Swept.of_fire (hs : Reachable s) (swept : s.Swept) (hfire : s.fire m = some t) :
    t.Swept := by
  obtain ⟨heffect, htouches⟩ := effect_of_fire hs.legible hfire
  rcases swept with hcleared | hgone | ⟨i, result, hcall⟩ | hclosed
  · rcases reading_of_fire hfire (.inl hcleared) with h | h
    · exact .inl h
    · exact .inr (.inl h)
  · rcases reading_of_fire hfire (.inr hgone) with h | h
    · exact .inl h
    · exact .inr (.inl h)
  · by_cases hm : m.caller? = some i
    · obtain ⟨c, u, step, rfl⟩ := callStep_of_fire hcall hm hfire
      cases step
      exact .inr (.inr (.inr rfl))
    · exact .inr (.inr (.inl ⟨i, result, call_stays htouches hcall hm⟩))
  · exact .inr (.inr (.inr ((onward_of_effect heffect).phase hclosed)))

theorem Swept.leads {kind : Interplay → Move → Prop} (hs : Reachable s) (swept : s.Swept)
    (hst : Leads kind s t) : t.Swept := by
  induction hst with
  | refl => exact swept
  | step before _ fired ih => exact ih.of_fire (hs.leads before) fired

/-! ## Registrations -/

/-- Why a registration fails when the descriptor is closed. -/
def Hopeless (p : Path) (f : Failure) : Prop :=
  f = .closed ∨ ∃ n, p.normalize.bytes.findIdx? (· == 0) = some n ∧
    f = .registration p.normalize (.nulByte n)

/-- A registration that has not asked the kernel, or has asked in vain. -/
def Doomed : Call → Prop
  | .add _ _ .arriving => True
  | .add _ _ .heard => True
  | .add _ _ (.inside .admitted) => True
  | .add _ _ (.inside (.asking _ _)) => True
  | .add p _ (.inside (.told _ (.error f))) => Hopeless p f
  | .add p _ (.returned (.error f)) => Hopeless p f
  | _ => False

theorem arm_hopeless {w : Watcher} (closed : w.reader.descriptorOpen = false) (p : Path)
    (flags : Mask) : ∃ f, (w.arm p.normalize flags).1 = .error f ∧ Hopeless p f := by
  unfold Watcher.arm
  cases hnul : p.normalize.bytes.findIdx? (· == 0) with
  | some n => exact ⟨_, rfl, .inr ⟨n, hnul, rfl⟩⟩
  | none =>
    rw [closed]
    exact ⟨_, rfl, .inl rfl⟩

theorem doomed_of_callStep {i : Nat} {c c' : Call} (closed : s.descriptorOpen = false)
    (doomed : Doomed c) (step : s.CallStep i m c c' u) : Doomed c' := by
  cases step with
  | addKnocks knock =>
    obtain ⟨-, -, rfl⟩ | ⟨-, -, -, rfl⟩ | ⟨-, rfl⟩ := Progress.knock_cases knock
    · trivial
    · trivial
    · exact .inl rfl
  | addLooks => trivial
  | addAsks answer =>
    rename_i wanted known granted kernel
    obtain ⟨f, hf, hopeless⟩ := arm_hopeless (w := s.watcher) closed _ (armed wanted known)
    rw [answer] at hf
    subst hf
    exact hopeless
  | addFails => exact doomed
  | addRefused e isOpen =>
    rw [closed] at isOpen
    cases isOpen
  | _ => cases doomed

theorem doomed_of_fire (hs : Reachable s) (closed : s.descriptorOpen = false) {i : Nat} {c : Call}
    (hcall : s.calls[i]? = some c) (doomed : Doomed c) (hfire : s.fire m = some t) :
    ∃ d, t.calls[i]? = some d ∧ Doomed d := by
  by_cases hm : m.caller? = some i
  · obtain ⟨d, u, step, rfl⟩ := callStep_of_fire hcall hm hfire
    exact ⟨d, step.after hcall, doomed_of_callStep closed doomed step⟩
  · exact ⟨c, call_stays (effect_of_fire hs.legible hfire).2 hcall hm, doomed⟩

theorem doomed_of_leads {kind : Interplay → Move → Prop} (hs : Reachable s)
    (closed : s.descriptorOpen = false) {i : Nat} {c : Call} (hcall : s.calls[i]? = some c)
    (doomed : Doomed c) (hst : Leads kind s t) : ∃ d, t.calls[i]? = some d ∧ Doomed d := by
  induction hst with
  | refl => exact ⟨c, hcall, doomed⟩
  | step before _ fired ih =>
    obtain ⟨d, hd, hdoomed⟩ := ih
    exact doomed_of_fire (hs.leads before) ((before.onward hs).not_open closed) hd hdoomed fired

/-! ## Calls made after a close -/

/-- A call that is refused, or has not heard it yet. -/
def TurnedAway : Call → Prop
  | .add _ _ .arriving => True
  | .add _ _ .heard => True
  | .add _ _ (.returned result) => result = .error .closed
  | .remove _ .arriving => True
  | .remove _ .heard => True
  | .remove _ (.returned result) => result = .error .closed
  | .list .arriving => True
  | .list .heard => True
  | .list (.returned paths) => paths = []
  | .close .arriving => True
  | .close (.returned result) => result = .ok ()
  | _ => False

theorem turnedAway_of_isFresh {c : Call} (fresh : c.isFresh = true) : TurnedAway c := by
  unfold Call.isFresh at fresh
  split at fresh <;> trivial

/-- At a closed watcher nobody is let in. -/
theorem knock_closed {σ ρ : Type} {w : Watcher} {phaseFree : Bool} {entry : σ} {refusal : ρ}
    {progress next : Progress σ ρ} (hclosed : w.phase = .closed)
    (h : progress.knock w phaseFree entry refusal = some next) :
    next = .heard ∨ next = .returned refusal := by
  obtain ⟨-, -, rfl⟩ | ⟨-, -, hrunning, -⟩ | ⟨-, rfl⟩ := Progress.knock_cases h
  · exact .inl rfl
  · rw [hclosed] at hrunning
    cases hrunning
  · exact .inr rfl

/-- A call that is turned away learns so, and changes nothing. -/
theorem turnedAway_of_callStep (hclosed : s.watcher.phase = .closed) {i : Nat} {c c' : Call}
    (away : TurnedAway c) (step : s.CallStep i m c c' u) : TurnedAway c' ∧ u = s := by
  cases step with
  | addKnocks knock | removeKnocks knock | listKnocks knock =>
    refine ⟨?_, rfl⟩
    rcases knock_closed hclosed knock with rfl | rfl
    · trivial
    · rfl
  | closeFindsClosed => exact ⟨rfl, rfl⟩
  | closeEnters free running =>
    rw [hclosed] at running
    cases running
  | _ => cases away

theorem turnedAway_of_fire (hclosed : s.watcher.phase = .closed) (hfire : s.fire m = some t)
    {n : Nat} (away : ∀ i c, n ≤ i → s.calls[i]? = some c → TurnedAway c) :
    (∀ i c, n ≤ i → t.calls[i]? = some c → TurnedAway c) ∧
      ∀ i, n ≤ i → m.caller? = some i → t.watcher = s.watcher := by
  refine ⟨fun i c hi hcall => ?_, fun i hi hm => ?_⟩
  · rcases call_of_fire hfire hcall with hsame | ⟨-, fresh⟩ | ⟨d, u, stage, step, -⟩
    · exact away i c hi hsame
    · exact turnedAway_of_isFresh fresh
    · exact (turnedAway_of_callStep hclosed (away i d hi stage) step).1
  · obtain ⟨c, c', u, stage, step, rfl⟩ := exists_callStep hm hfire
    obtain ⟨-, rfl⟩ := turnedAway_of_callStep hclosed (away i c hi stage) step
    rfl

theorem turnedAway_of_leads {kind : Interplay → Move → Prop} (hs : Reachable s)
    (hclosed : s.watcher.phase = .closed) (hst : Leads kind s t) {i : Nat} {c : Call}
    (hi : s.calls.length ≤ i) (hcall : t.calls[i]? = some c) : TurnedAway c := by
  suffices h : ∀ i c, s.calls.length ≤ i → t.calls[i]? = some c → TurnedAway c from h i c hi hcall
  clear hi hcall
  induction hst with
  | refl =>
    intro i c hi hcall
    rw [List.getElem?_eq_none hi] at hcall
    cases hcall
  | step before _ fired ih =>
    exact (turnedAway_of_fire ((before.onward hs).phase hclosed) fired ih).1

/-! ## Every call returns -/

/-- Steps of calls and of the reader. -/
def Going (_ : Interplay) (m : Move) : Prop := m = .reader ∨ ∃ i, m = .call i

/-- How many steps a reader has still to make that has cleared the table. -/
def Reading.rest : Reading → Nat
  | .cleared => 1
  | _ => 0

def rest (s : Interplay) : Nat := (s.calls.map Call.rest).foldr (· + ·) 0 + s.reading.rest

theorem foldr_set_lt {l : List Nat} {i a b : Nat} (h : l[i]? = some a) (hb : b < a) :
    (l.set i b).foldr (· + ·) 0 < l.foldr (· + ·) 0 := by
  induction l generalizing i with
  | nil => cases h
  | cons c l ih =>
    cases i with
    | zero =>
      cases h
      simp only [List.set_cons_zero, List.foldr_cons]
      omega
    | succ i =>
      have := ih (by simpa using h)
      simp only [List.set_cons_succ, List.foldr_cons]
      omega

theorem rest_lt {i : Nat} {c c' : Call} (hcall : s.calls[i]? = some c)
    (calls : t.calls = s.calls.set i c') (reading : t.reading = s.reading)
    (hlt : c'.rest < c.rest) : t.rest < s.rest := by
  unfold rest
  rw [calls, reading, List.map_set]
  have := foldr_set_lt (l := s.calls.map Call.rest) (i := i) (by rw [List.getElem?_map, hcall]; rfl)
    hlt
  omega

theorem CallStep.rest_lt {i : Nat} {c c' : Call} (step : s.CallStep i m c c' u)
    (hcall : s.calls[i]? = some c) (hlt : c'.rest < c.rest) : (u.put i c').rest < s.rest := by
  refine Interplay.rest_lt hcall ?_ step.reading hlt
  show u.calls.set i c' = s.calls.set i c'
  rw [step.calls]

/-- A step that can be made and brings a call nearer to its end. -/
def CanStep (s : Interplay) : Prop := ∃ m t, Going s m ∧ s.fire m = some t ∧ t.rest < s.rest

theorem CanStep.of_callStep {i : Nat} {c c' : Call} (hcall : s.calls[i]? = some c)
    (step : s.CallStep i (.call i) c c' u) (hlt : c'.rest < c.rest) : s.CanStep :=
  ⟨.call i, _, .inr ⟨i, rfl⟩, step.fire hcall, step.rest_lt hcall hlt⟩

/-- Whoever holds the table can go on. -/
theorem callStep_of_holdsTable {i : Nat} {c : Call} (holds : c.holdsTable = true) :
    ∃ c' u, s.CallStep i (.call i) c c' u ∧ c'.rest < c.rest := by
  unfold Call.holdsTable at holds
  split at holds
  · exact ⟨_, _, .addAsks rfl, Nat.lt_succ_self 1⟩
  · rename_i granted
    cases granted with
    | error f => exact ⟨_, _, .addFails, Nat.one_pos⟩
    | ok h => exact ⟨_, _, .addStores, Nat.one_pos⟩
  · cases holds

theorem canStep_of_holdsTable {i : Nat} {c : Call} (hcall : s.calls[i]? = some c)
    (holds : c.holdsTable = true) : s.CanStep := by
  obtain ⟨c', u, step, hlt⟩ := callStep_of_holdsTable holds
  exact .of_callStep hcall step hlt

/-- Whoever holds the phase can go on, once the table is cleared and free.  It may have to wait for the
reader, but then the reader has cleared the table and only has to go. -/
theorem canStep_of_holdsPhase (ending : s.Ending) (swept : s.Swept) (free : s.tableFree = true)
    {i : Nat} {c : Call} (hcall : s.calls[i]? = some c) (holds : c.holdsPhase = true) :
    s.CanStep := by
  cases c with
  | close closing =>
    cases closing with
    | arriving => cases holds
    | returned => cases holds
    | entered => exact .of_callStep hcall .closeAnnounces (Nat.lt_succ_self 5)
    | announced =>
      cases hgone : s.reading.isGone with
      | true => exact .of_callStep hcall (.closeMisses hgone) (Nat.lt_succ_self 4)
      | false => exact .of_callStep hcall (.closeWakes hgone) (Nat.lt_succ_self 4)
    | joined result => exact .of_callStep hcall .closeReleases (Nat.lt_succ_self 2)
    | cleared result => exact .of_callStep hcall .closeEnds Nat.one_pos
    | released result =>
      exact .of_callStep hcall (.closeClears free) (Nat.lt_succ_self 1)
    | woken result =>
      cases result with
      | error f => exact .of_callStep hcall .closeFails (Nat.lt_succ_self 3)
      | ok =>
        -- It waits for the reader, so it is not this call that has cleared the table.
        rcases swept with hcleared | hgone | ⟨j, result, hother⟩ | hclosed
        · refine ⟨.reader, _, .inl rfl, ReaderStep.go.fire hcleared, ?_⟩
          unfold rest
          rw [hcleared]
          exact Nat.lt_succ_self _
        · have gone : s.reading.isGone = true := by rw [hgone]; rfl
          exact .of_callStep hcall (.closeJoins gone) (Nat.lt_succ_self 3)
        · have hij := ending.alone hother hcall rfl rfl
          subst hij
          rw [hcall] at hother
          cases hother
        · rw [not_holdsPhase (ending.closed hclosed).1 hcall] at holds
          cases holds
  | _ => cases holds

/-- Whoever has not returned can go on, while nobody holds the table or the phase.  A removal that waits
finds that it has nothing to wait for. -/
theorem canStep_of_free (bare : s.Bare) (free : s.tableFree = true) (phaseFree : s.phaseFree = true)
    {i : Nat} {c : Call} (hcall : s.calls[i]? = some c) (notReturned : c.hasReturned = false) :
    s.CanStep := by
  by_cases early : c.isEarly = true
  · obtain ⟨c', step, -, hlt⟩ := callStep_of_isEarly free phaseFree early
    exact .of_callStep hcall step hlt
  cases c with
  | add p o progress =>
    cases progress with
    | arriving | heard => exact absurd rfl early
    | inside stage =>
      cases stage with
      | admitted => exact absurd rfl early
      | asking | told => exact canStep_of_holdsTable hcall rfl
    | returned => cases notReturned
  | remove p progress =>
    cases progress with
    | arriving | heard => exact absurd rfl early
    | inside stage =>
      cases stage with
      | admitted => exact absurd rfl early
      | found h =>
        exact .of_callStep hcall (.removeShutOut bare.descriptorOpen) (Nat.succ_pos 1)
      | waiting h =>
        have awake : s.sleepers.contains i = false := by
          rw [bare.sleepers]
          rfl
        exact .of_callStep hcall (.removeConfirmed free awake (bare.owns _ _)) Nat.one_pos
    | returned => cases notReturned
  | list progress =>
    cases progress with
    | arriving | heard | inside => exact absurd rfl early
    | returned => cases notReturned
  | close closing =>
    have hholds := not_holdsPhase phaseFree hcall
    cases closing with
    | arriving =>
      cases hphase : s.watcher.phase with
      | running =>
        exact .of_callStep hcall (.closeEnters phaseFree hphase) (Nat.lt_succ_self 6)
      | closed =>
        exact .of_callStep hcall (.closeFindsClosed phaseFree hphase) (Nat.succ_pos 6)
    | returned => cases notReturned
    | _ => cases hholds

/-- **Somebody can go on**, as long as anybody has not returned. -/
theorem exists_step (hs : Reachable s) (swept : s.Swept) (h : s.allReturned = false) :
    s.CanStep := by
  have bare := swept.bare hs.ending
  -- Who holds the table waits for nobody, who holds the phase at most for the table and the reader.
  by_cases free : s.tableFree = true
  · by_cases phaseFree : s.phaseFree = true
    · obtain ⟨c, hc, hnot⟩ : ∃ c ∈ s.calls, c.hasReturned = false := by
        unfold allReturned at h
        rw [List.all_eq_false] at h
        simpa using h
      obtain ⟨i, hi⟩ := List.mem_iff_getElem?.mp hc
      exact canStep_of_free bare free phaseFree hi hnot
    · obtain ⟨c, hc, hholds⟩ : ∃ c ∈ s.calls, c.holdsPhase = true := by
        unfold Interplay.phaseFree at phaseFree
        rw [Bool.not_eq_true, List.all_eq_false] at phaseFree
        simpa using phaseFree
      obtain ⟨i, hi⟩ := List.mem_iff_getElem?.mp hc
      exact canStep_of_holdsPhase hs.ending swept free hi hholds
  · obtain ⟨c, hc, hholds⟩ : ∃ c ∈ s.calls, c.holdsTable = true := by
      unfold tableFree at free
      rw [Bool.not_eq_true, List.all_eq_false] at free
      simpa using free
    obtain ⟨i, hi⟩ := List.mem_iff_getElem?.mp hc
    exact canStep_of_holdsTable hi hholds

theorem exists_allReturned (hs : Reachable s) (swept : s.Swept) :
    ∃ t, Leads Going s t ∧ t.allReturned = true := by
  induction hn : s.rest using Nat.strongRecOn generalizing s with
  | _ n ih =>
    cases h : s.allReturned with
    | true => exact ⟨s, .refl, h⟩
    | false =>
      obtain ⟨m, t, hgoing, hfire, hlt⟩ := exists_step hs swept h
      have hst : Leads Going s t := .step .refl hgoing hfire
      obtain ⟨u, htu, hu⟩ := ih t.rest (hn ▸ hlt) (hs.leads hst) (swept.leads hs hst) rfl
      exact ⟨u, hst.trans htu, hu⟩

/-! ## The promise -/

/-- **Nothing is left behind.**  When the table has been cleared, after the descriptor was closed, it
stays empty and the descriptor stays closed.  No removal has anything to wait for, and nobody sleeps.  A
registration that had not asked the kernel yet fails: the watcher is closed, or the path holds a NUL
byte.  And all calls can return, by steps of their own and of a reader that is about to go.

When a `close` has returned, all this has come to pass.  A call that is made later changes nothing, and
when it returns, it was turned away. -/
theorem nothing_left_behind (reachable : Reachable s) :
    (∀ m t, s.Sweeps m → s.fire m = some t → ∀ u, Leads Anything t u →
      u.table = .empty ∧ u.descriptorOpen = false ∧
      (∀ p h timeUp, u.table.wait p h timeUp = .confirmed) ∧ u.sleepers = [] ∧
      (∀ (i : Nat) c, u.calls[i]? = some c → Doomed c → ∀ v, Leads Anything u v →
        ∃ d, v.calls[i]? = some d ∧ Doomed d) ∧
      ∃ v, Leads Going u v ∧ v.allReturned = true) ∧
    ∀ (i : Nat) result, s.calls[i]? = some (Call.close (.returned result)) →
      ∀ t, Leads Anything s t →
        t.Bare ∧
        (∀ j c, s.calls.length ≤ j → t.calls[j]? = some c → TurnedAway c) ∧
        (∀ j m u, s.calls.length ≤ j → m.caller? = some j → t.fire m = some u →
          u.watcher = t.watcher) ∧
        ∃ v, Leads Going t v ∧ v.allReturned = true := by
  constructor
  · intro m t sweeps hfire u hu
    have ht : Reachable t := reachable.leads (.step .refl trivial hfire : Leads Anything s t)
    have hreachable : Reachable u := ht.leads hu
    have swept : u.Swept := (swept_of_sweeps sweeps hfire).leads ht hu
    have bare := swept.bare hreachable.ending
    refine ⟨bare.table, bare.descriptorOpen, fun p h timeUp => ?_, bare.sleepers, ?_,
      exists_allReturned hreachable swept⟩
    · rw [WatchTable.wait, bare.owns]
      rfl
    · intro i c hcall doomed v hv
      exact doomed_of_leads hreachable bare.descriptorOpen hcall doomed hv
  · intro i result hcall t ht
    have hclosed : s.watcher.phase = .closed := reachable.ending.closes hcall
    have hreachable : Reachable t := reachable.leads ht
    have htclosed := (ht.onward reachable).phase hclosed
    have swept : t.Swept := .inr (.inr (.inr htclosed))
    refine ⟨swept.bare hreachable.ending, fun j c hj => turnedAway_of_leads reachable hclosed ht hj,
      ?_, exists_allReturned hreachable swept⟩
    intro j m u hj hm hfire
    exact (turnedAway_of_fire htclosed hfire fun i c hi =>
      turnedAway_of_leads reachable hclosed ht hi).2 j hj hm

/-- A registration was let in, a `close` could not wake the reader and has returned, and the reader
ends by itself. -/
def lateReader : List Move :=
  [.begin (.add ⟨[dot]⟩ .default .arriving), .call 0, .call 0, .begin (.close .arriving),
    .call 1, .call 1, .unheard 1 .unheardWake, .call 1, .call 1, .call 1, .call 1,
    .leave, .reader, .reader]

theorem nothing_left_behind_lateReader : ∃ s t : Interplay,
    (start .default .fresh 16).run lateReader = some s ∧ s.fire .reader = some t ∧
      (∀ u, Leads Anything t u → u.table = .empty ∧ u.sleepers = [] ∧
        ∃ c, u.calls[0]? = some c ∧ Doomed c) ∧
      (∀ u, Leads Anything s u → ∀ c, u.calls[2]? = some c → TurnedAway c) ∧
      ∃ v, Leads Going t v ∧ v.allReturned = true := by
  have hbefore : ((start .default .fresh 16).run lateReader).map (fun s => (s.calls, s.reading))
      = some ([.add ⟨[dot]⟩ .default (.inside .admitted),
          .close (.returned (.error .unheardWake))], .released) := by cbv
  obtain ⟨s, hs, hvalues⟩ := Option.map_eq_some_iff.mp hbefore
  obtain ⟨hcalls, hreading⟩ := Prod.mk.inj hvalues
  have hstep : (((start .default .fresh 16).run lateReader).bind fun s => s.fire .reader).map
      (fun t => t.calls[0]?) = some (some (.add ⟨[dot]⟩ .default (.inside .admitted))) := by cbv
  rw [hs, Option.bind_some] at hstep
  obtain ⟨t, ht, hadd⟩ := Option.map_eq_some_iff.mp hstep
  have hreachable : Reachable s := ⟨_, _, _, leads_of_run hs⟩
  have hst : Leads Anything s t := .step .refl trivial ht
  obtain ⟨hcleared, hclosed⟩ := nothing_left_behind hreachable
  have hswept := hcleared .reader t (.inl ⟨rfl, hreading⟩) ht
  refine ⟨s, t, hs, ht, fun u hu => ?_, fun u hu c hc => ?_, (hswept t .refl).2.2.2.2.2⟩
  · obtain ⟨htable, -, -, hsleepers, -, -⟩ := hswept u hu
    exact ⟨htable, hsleepers, (hswept t .refl).2.2.2.2.1 0 _ hadd trivial u hu⟩
  · exact (hclosed 1 _ (by rw [hcalls]; rfl) u hu).2.1 2 c (by rw [hcalls]; exact Nat.le_refl 2) hc

end Interplay

end FileWatch
