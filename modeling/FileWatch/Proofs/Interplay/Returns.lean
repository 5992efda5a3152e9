import FileWatch.Proofs.Interplay.Advance
import FileWatch.Proofs.Interplay.Served

/-!
# A lone caller always gets an answer

A removal that waits needs the reader, and the reader has other things to do.  But it gets there: each
step leaves it with less to do (`reader_advances`), so a reader that is left alone runs out of records
(`drains`).  Then a removal has nothing left to wait for, and there is room in the queue.

Every other step of a call can be made at once, and brings it nearer to its end (`Call.rest`).  So
whatever has happened, steady moves lead on to a state in which every call has returned.
-/

namespace FileWatch

namespace Interplay

variable {s t u : Interplay} {m : Move} {script : List Errand} {h : Holdings} {q : Errand} {i : Nat}
  {c : Call} {find : Bool → Path → Except Errno Inode}

/-! ## The reader runs out of work -/

/-- **A reader at work makes a step**, unless it has run out of work. -/
theorem reader_steps (legible : s.Legible) (calm : s.Calm find) (free : s.tableFree = true)
    (busy : ¬ (s.reading = .polling ∧ s.batch = [] ∧ s.notifier.queue = [])) :
    ∃ t, s.fire .reader = some t ∧ t.work < s.work := by
  have hworking := calm.working
  have hstays : s.reading.departs = false := by
    cases hand : s.reading with
    | leaving | stopping | released | cleared | gone =>
      rw [hand] at hworking
      cases hworking
    | _ => rfl
  rcases reader_advances legible calm.atWork.isOpen free hstays busy with hsteps | ⟨hclosing, -⟩
  · exact hsteps
  · rw [calm.atWork.unclosed] at hclosing
    cases hclosing

/-- **A reader that is left alone runs out of records.** -/
theorem drains (hs : Reachable s) (served : s.Served find script) (free : s.tableFree = true) :
    ∃ t, Leads (Steady script) s t ∧ t.calls = s.calls ∧ t.pending = [] ∧
      t.notifier.granted = s.notifier.granted := by
  induction hwork : s.work using Nat.strongRecOn generalizing s with
  | ind n ih =>
    by_cases hdone : s.reading = .polling ∧ s.batch = [] ∧ s.notifier.queue = []
    · obtain ⟨hand, hbatch, hqueue⟩ := hdone
      refine ⟨s, .refl, rfl, ?_, rfl⟩
      rw [pending, taken, hand, hbatch, hqueue]
      rfl
    · obtain ⟨t, hfire, hless⟩ := reader_steps hs.legible served.calm free hdone
      have hcalls := (readerStep_of_fire rfl hfire).calls
      have hstep : Leads (Steady script) s t := .step .refl .reader hfire
      obtain ⟨-, hgranted, -⟩ := around_of_fire hs served.calm
        (Steady.reader : Steady script s .reader).tame hfire rfl
      obtain ⟨u, hu, hucalls, hupending, hugranted⟩ := ih t.work (hwork ▸ hless) (hs.leads hstep)
        (served.of_leads hs hstep) (by rw [tableFree, hcalls]; exact free) rfl
      exact ⟨u, hstep.trans hu, hucalls.trans hcalls, hupending, hugranted.trans hgranted⟩

/-! ## Every call comes to its end -/

/-- Whether a call may yet ask the kernel for a watch. -/
def Call.mayAsk : Call → Bool
  | .add _ _ .arriving => true
  | .add _ _ .heard => true
  | .add _ _ (.inside .admitted) => true
  | .add _ _ (.inside (.asking _ _)) => true
  | _ => false

/-- A call takes a steady step towards its end. -/
structure Nears (script : List Errand) (s : Interplay) (i : Nat) (c : Call) (t : Interplay)
    (c' : Call) : Prop where
  leads : Leads (Steady script) s t
  calls : t.calls = s.calls.set i c'
  rest : c'.rest < c.rest
  asks : c'.mayAsk = true → c.mayAsk = true ∧ t.notifier.granted = s.notifier.granted

theorem Steady.of_stage (stage : s.calls[i]? = some c)
    (notAsking : ∀ p o wanted known, c ≠ .add p o (.inside (.asking wanted known)))
    (notFound : ∀ p g, c ≠ .remove p (.inside (.found g))) : Steady script s (.call i) := by
  refine .call (fun h => ?_) fun h => ?_
  · rw [stage, Option.some.injEq] at h
    exact absurd h (notAsking _ _ _ _)
  · rw [stage, Option.some.injEq] at h
    exact absurd h (notFound _ _)

theorem mayAsk_of_isEarly {c' : Call} (early : c.isEarly = true) (request : c'.request = c.request)
    (asks : c'.mayAsk = true) : c.mayAsk = true := by
  cases c with
  | add p o progress =>
    cases progress with
    | arriving | heard => rfl
    | inside stage =>
      cases stage with
      | admitted => rfl
      | asking | told => cases early
    | returned => cases early
  | remove | list | close =>
    unfold Call.mayAsk at asks
    split at asks <;> first | cases request | cases asks

theorem nears_of_callStep {c' : Call} (steady : Steady script s m) (stage : s.calls[i]? = some c)
    (step : s.CallStep i m c c' u) (rest : c'.rest < c.rest) (silent : c'.mayAsk = false) :
    ∃ t c', s.Nears script i c t c' := by
  refine ⟨_, c', .step .refl steady (step.fire stage), by rw [put, step.calls], rest,
    fun asks => ?_⟩
  rw [silent] at asks
  cases asks

/-- A call that has yet to look at the table need not wait for anything. -/
theorem nears_of_early (lone : s.Lone i c) (early : c.isEarly = true) :
    ∃ t c', s.Nears script i c t c' := by
  have free : c.holdsTable = false ∧ c.holdsPhase = false := by
    unfold Call.isEarly at early
    split at early <;> first | exact ⟨rfl, rfl⟩ | cases early
  obtain ⟨c', step, request, hrest⟩ := callStep_of_isEarly (lone.tableFree free.1)
    (lone.phaseFree free.2) early
  refine ⟨_, c', .step .refl (.of_stage lone.stage ?_ ?_) (step.fire lone.stage), rfl, hrest,
    fun asks => ⟨mayAsk_of_isEarly early request asks, rfl⟩⟩
  · rintro p o wanted known rfl
    cases early
  · rintro p g rfl
    cases early

/-- Where handles are left, the kernel has a watch for everything. -/
theorem shortage?_eq_none {k : Kernel} (room : k.notifier.granted < Notifier.handleLimit) (p : Path)
    (flags : Mask) : k.shortage? p flags = none := by
  unfold Kernel.shortage?
  split
  · split
    · rename_i inode _
      unfold Notifier.grant
      cases k.notifier.watchOf? inode with
      | some w => rfl
      | none => simp only [room, if_true]
    · rfl
  · rfl

/-- The kernel grants a registration what it asks for, or refuses it, as the script says. -/
theorem nears_of_asking {p : Path} {o : WatchOptions} {refused : Option Errno} {wanted : Mask}
    {known : Bool} (calm : s.Calm find)
    (stage : s.calls[i]? = some (.add p o (.inside (.asking wanted known))))
    (next : script[i]? = some (.add p o refused))
    (room : s.notifier.granted < Notifier.handleLimit) :
    ∃ t c', s.Nears script i (.add p o (.inside (.asking wanted known))) t c' := by
  have hcall : (p.normalize.bytes.contains 0 = false → refused = none) →
      ∃ t c', s.Nears script i (.add p o (.inside (.asking wanted known))) t c' := by
    intro hnone
    rcases harm : s.watcher.arm p.normalize (armed wanted known) with ⟨granted, kernel⟩
    refine nears_of_callStep (.call ?_ ?_) stage (.addAsks harm) (Nat.lt_succ_self 1) rfl
    · intro q o' wanted' known' hstage hno
      rw [stage, Option.some.injEq] at hstage
      cases hstage
      rw [shortage?_eq_none room, next, hnone hno]
    · intro q g hstage
      rw [stage] at hstage
      cases hstage
  cases refused with
  | none => exact hcall fun _ => rfl
  | some e =>
    -- The script has a refusal, but a path with a zero byte never gets to the kernel.
    cases hnul : p.normalize.bytes.contains 0 with
    | true =>
      refine hcall fun hno => ?_
      rw [hnul] at hno
      cases hno
    | false =>
      exact nears_of_callStep (.refuse next) stage (.addRefused e calm.atWork.isOpen hnul)
        (Nat.lt_succ_self 1) rfl

/-- **A call takes a step towards its end**, once the reader has run out of records. -/
theorem nears (served : s.Served find script) (hc : s.calls[i]? = some c)
    (hopen : c.hasReturned = false) (quiet : c.holdsTable = false → s.pending = [])
    (room : c.mayAsk = true → s.notifier.granted < Notifier.handleLimit) :
    ∃ t c', s.Nears script i c t c' := by
  obtain ⟨hlast, lone⟩ := served.lone hc hopen
  obtain ⟨q, hq, request⟩ := served.requests hc
  have calm := served.calm
  cases served.latest hc hq hlast with
  | early early _ => exact nears_of_early lone early
  | asking => exact nears_of_asking calm hc hq (room rfl)
  | refused =>
    refine nears_of_callStep (.of_stage hc ?_ ?_) hc .addFails (Nat.lt_succ_self 0) rfl
    · rintro _ _ _ _ ⟨⟩
    · rintro _ _ ⟨⟩
  | granted =>
    refine nears_of_callStep (.of_stage hc ?_ ?_) hc .addStores (Nat.lt_succ_self 0) rfl
    · rintro _ _ _ _ ⟨⟩
    · rintro _ _ ⟨⟩
  | found =>
    have hqueue : s.notifier.queue = [] := (List.append_eq_nil_iff.mp (quiet rfl)).2
    refine nears_of_callStep (.call ?_ ?_) hc (.removeAsks calm.atWork.isOpen) (Nat.lt_succ_self 1)
      rfl
    · intro _ _ _ _ hstage
      rw [hc] at hstage
      cases hstage
    · intro _ _ _
      rw [hqueue]
      exact calm.limit
  | @waiting p g waits =>
    obtain ⟨hresolved, hawake⟩ : s.table.resolve? g = none ∧ s.sleepers = [] := by
      rcases waits.pair with hresolved | ⟨-, hpending⟩
      · exact hresolved
      · rw [quiet rfl] at hpending
        cases hpending
    have howns : s.table.owns p.normalize g = false := by
      rw [WatchTable.owns, hresolved]
    have awake : s.sleepers.contains i = false := by
      rw [hawake]
      rfl
    refine nears_of_callStep (.of_stage hc ?_ ?_) hc
      (.removeConfirmed (lone.tableFree rfl) awake howns) (Nat.lt_succ_self 0) rfl
    · rintro _ _ _ _ ⟨⟩
    · rintro _ _ ⟨⟩
  | returned outcome _ =>
    rw [← c.isSome_outcome?, outcome] at hopen
    cases hopen

/-- **A call comes to its end**: the reader and the call go on by turns. -/
theorem call_returns (hs : Reachable s) (served : s.Served find script)
    (hc : s.calls[i]? = some c) (room : c.mayAsk = true → s.notifier.granted < Notifier.handleLimit) :
    ∃ t d, Leads (Steady script) s t ∧ t.calls = s.calls.set i d ∧ d.hasReturned = true := by
  induction hrest : c.rest using Nat.strongRecOn generalizing s c with
  | ind n ih =>
    cases hopen : c.hasReturned with
    | true => exact ⟨s, c, .refl, (set_self hc).symm, hopen⟩
    | false =>
      -- A call that holds the table keeps the reader from it, but such a call need not wait.
      obtain ⟨u, hsu, hcalls, hquiet, hgranted⟩ : ∃ u, Leads (Steady script) s u ∧
          u.calls = s.calls ∧ (c.holdsTable = false → u.pending = []) ∧
          u.notifier.granted = s.notifier.granted := by
        cases hholds : c.holdsTable with
        | true => exact ⟨s, .refl, rfl, nofun, rfl⟩
        | false =>
          obtain ⟨u, hsu, hcalls, hquiet, hgranted⟩ :=
            drains hs served ((served.lone hc hopen).2.tableFree hholds)
          exact ⟨u, hsu, hcalls, fun _ => hquiet, hgranted⟩
      have hu := hs.leads hsu
      have hserved := served.of_leads hs hsu
      obtain ⟨t, c', hut⟩ := nears hserved (hcalls ▸ hc) hopen hquiet (hgranted ▸ room)
      have hi : i < u.calls.length := (List.getElem?_eq_some_iff.mp (hcalls ▸ hc)).1
      obtain ⟨v, d, htv, hd, hreturned⟩ := ih c'.rest (hrest ▸ hut.rest) (hu.leads hut.leads)
        (hserved.of_leads hu hut.leads) (by rw [hut.calls, List.getElem?_set_self hi])
        (fun hasks => by
          obtain ⟨hbefore, hsame⟩ := hut.asks hasks
          rw [hsame, hgranted]
          exact room hbefore) rfl
      refine ⟨v, d, hsu.trans (hut.leads.trans htv), ?_, hreturned⟩
      rw [hd, hut.calls, List.set_set, hcalls]

/-- **All calls come to their end.** -/
theorem all_return (hs : Reachable s) (served : s.Served find script)
    (room : s.notifier.granted < Notifier.handleLimit) :
    ∃ t, Leads (Steady script) s t ∧ t.calls.length = s.calls.length ∧ t.allReturned = true := by
  cases hall : s.allReturned with
  | true => exact ⟨s, .refl, rfl, hall⟩
  | false =>
    obtain ⟨c, hc, hopen⟩ := List.all_eq_false.mp hall
    obtain ⟨i, hi⟩ := List.mem_iff_getElem?.mp hc
    obtain ⟨t, d, hst, hcalls, hreturned⟩ := call_returns hs served hi fun _ => room
    refine ⟨t, hst, by rw [hcalls, List.length_set], ?_⟩
    obtain ⟨-, lone⟩ := served.lone hi (Bool.eq_false_iff.mpr hopen)
    rw [allReturned, hcalls]
    exact (lone.put d).all id hreturned

/-! ## The answer -/

/-- **A watcher with one caller is a registry of paths.**  Whatever the script and the settings, and
however the reader and the kernel come between the steps of the calls:

* each call that has returned got what the registry answers, if its errand and those before it are
  served one after the other;
* when all calls have returned, the table has the paths of the registry, in its order and spelling, and
  the handle of each is that of a live watch on its thing;
* while the kernel has handles left, the calls made so far can all come to their end. -/
theorem lone_caller_registry {settings : Settings} {tree : Tree} {limit : Nat}
    (room : 0 < limit) (led : Leads (Steady script) (start settings tree limit) s) :
    (∀ (i : Nat) (c : Call), s.calls[i]? = some c → ∃ q, script[i]? = some q ∧
      c.request = q.call.request ∧ (c.hasReturned = true →
        c.outcome? = (Holdings.empty.serveAll tree.find script).1[i]?)) ∧
    (s.allReturned = true → s.table.Stands s.notifier
      (Holdings.empty.serveAll tree.find (script.take s.calls.length)).2) ∧
    (s.notifier.granted < Notifier.handleLimit → ∃ t, Leads (Steady script) s t ∧
      t.calls.length = s.calls.length ∧ t.allReturned = true) := by
  have hstart : Reachable (start settings tree limit) := ⟨settings, tree, limit, .refl⟩
  have hs := hstart.leads led
  have served := (served_start settings tree room script).of_leads hstart led
  refine ⟨fun i c hc => ?_, fun idle => (served.holds idle).stands, all_return hs served⟩
  obtain ⟨q, hq, hrequest⟩ := served.requests hc
  refine ⟨q, hq, hrequest, fun hreturned => ?_⟩
  rw [served.outcome hc hreturned hq, Holdings.serveAll_getElem? tree.find hq]
  rfl

/-- Whether a move of a caller or of the reader is known to be steady. -/
def isSteady (script : List Errand) (s : Interplay) : Move → Bool
  | .begin c => s.allReturned && c.isFresh &&
    (script[s.calls.length]?.map fun q => q.call.request) = some c.request
  | .call i =>
    match s.calls[i]? with
    | some (.add p o (.inside (.asking wanted known))) => script[i]? = some (.add p o
      (s.watcher.kernel.shortage? p.normalize (if known then wanted ||| Mask.maskAdd else wanted)))
    | some (.remove _ (.inside (.found _))) => s.notifier.queue.length < s.notifier.limit
    | _ => true
  | .reader => true
  | _ => false

/-- The state after some moves that are known to be steady. -/
def steadyRun (script : List Errand) : Interplay → List Move → Option Interplay
  | s, [] => some s
  | s, m :: rest =>
    if isSteady script s m then (s.fire m).bind fun t => steadyRun script t rest else none

theorem Errand.eq_call {c : Call} {q : Errand} (fresh : c.isFresh = true)
    (request : c.request = q.call.request) : c = q.call := by
  unfold Call.isFresh at fresh
  split at fresh
  · cases q <;> cases request
    rfl
  · cases q <;> cases request
    rfl
  · cases q <;> cases request
    rfl
  · cases q <;> cases request
  · cases fresh

theorem steady_of_isSteady (h : isSteady script s m = true) : Steady script s m := by
  unfold isSteady at h
  split at h
  · rename_i c
    simp only [Bool.and_eq_true, decide_eq_true_eq, Option.map_eq_some_iff] at h
    obtain ⟨⟨idle, fresh⟩, q, next, request⟩ := h
    rw [Errand.eq_call fresh request.symm]
    exact .begin idle next
  · refine .call (fun hstage _ => ?_) fun hstage => ?_
    · rw [hstage] at h
      exact of_decide_eq_true h
    · rw [hstage] at h
      exact of_decide_eq_true h
  · exact .reader
  · cases h

theorem leads_of_steadyRun {moves : List Move} (hrun : steadyRun script s moves = some t) :
    Leads (Steady script) s t := by
  induction moves generalizing s with
  | nil =>
    cases hrun
    exact .refl
  | cons m rest ih =>
    unfold steadyRun at hrun
    split at hrun
    · rename_i hsteady
      obtain ⟨u, hfire, hrest⟩ := Option.bind_eq_some_iff.mp hrun
      exact (Leads.step .refl (steady_of_isSteady hsteady) hfire).trans (ih hrest)
    · cases hrun

/-- Two names of one directory are registered, the first of them is removed, and then the second. -/
def aliases : List Errand :=
  [.add ⟨[dot]⟩ (.new .write) none, .add ⟨[dot, dot, slash, 0x64]⟩ (.new .remove) none, .list,
    .remove ⟨[dot]⟩, .remove ⟨[dot, dot, slash, 0x64]⟩]

/-- The calls are made one after the other, and at last the reader reads. -/
def aliasMoves : List Move :=
  [.begin (.add ⟨[dot]⟩ (.new .write) .arriving), .call 0, .call 0, .call 0, .call 0, .call 0,
    .begin (.add ⟨[dot, dot, slash, 0x64]⟩ (.new .remove) .arriving),
    .call 1, .call 1, .call 1, .call 1, .call 1,
    .begin (.list .arriving), .call 2, .call 2, .call 2,
    .begin (.remove ⟨[dot]⟩ .arriving), .call 3, .call 3, .call 3,
    .begin (.remove ⟨[dot, dot, slash, 0x64]⟩ .arriving), .call 4, .call 4, .call 4, .call 4, .call 4,
    .reader, .reader, .reader, .call 4]

theorem lone_caller_registry_aliases : ∃ s : Interplay,
    Leads (Steady aliases) (start .default .fresh 16) s ∧ s.calls.length = 5 ∧
      ∀ (i : Nat) (c : Call), s.calls[i]? = some c → c.outcome? = [Errand.Outcome.done (.ok ()),
        .done (.ok ()), .listed [⟨[dot, dot, slash, 0x64]⟩], .done (.error (.notWatched ⟨[dot]⟩)),
        .done (.ok ())][i]? := by
  have hrun : (steadyRun aliases (start .default .fresh 16) aliasMoves).map (fun s =>
      (s.calls.length, s.allReturned)) = some (5, true) := by cbv
  have hserved : (Holdings.empty.serveAll Tree.fresh.find aliases).1 = [.done (.ok ()),
      .done (.ok ()), .listed [⟨[dot, dot, slash, 0x64]⟩], .done (.error (.notWatched ⟨[dot]⟩)),
      .done (.ok ())] := by cbv
  obtain ⟨s, hs, hvalues⟩ := Option.map_eq_some_iff.mp hrun
  obtain ⟨hlength, hreturned⟩ := Prod.mk.inj hvalues
  have hled := leads_of_steadyRun hs
  obtain ⟨hanswers, -, -⟩ := lone_caller_registry (by decide) hled
  refine ⟨s, hled, hlength, fun i c hc => ?_⟩
  obtain ⟨-, -, -, hanswer⟩ := hanswers i c hc
  rw [hanswer (List.all_eq_true.mp hreturned c (List.mem_of_getElem? hc)), hserved]

end Interplay

end FileWatch
