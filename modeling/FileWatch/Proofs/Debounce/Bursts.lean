import FileWatch.Proofs.Debounce.History

/-!
# Every burst of writes completes once

A burst of a path can end in four ways, and they compete: the path was quiet for the whole window,
it went away, the platform said that the write is complete, or the input ended.  Which of them comes
first depends on how looks at the clock and events are mixed, and none of them may complete a burst
that another one has completed already.

What a burst is can be read off a history from outside, without looking at what the worker keeps
(`openBurst`): it opens with a write of the path, goes on with every further write, and is over as
soon as the path is reported complete, by whomever.  `EndsEachBurst` states the promise in these
terms.  The invariant behind it is `Tracks`: what the worker keeps of a path is the burst that the
history so far shows, with its deadline.  A step preserves it whatever the input is, and whatever
the clock says; nothing below asks the clock to run forward.
-/

namespace FileWatch

/-- Whether an event reports that writes of a path are complete. -/
def Event.completes (p : Path) (e : Event) : Bool := e.path == p && e.has .closeWrite

namespace Worker

/-! ## Bursts, seen from outside -/

/-- A burst of writes in progress. -/
structure Burst where
  /-- The path, as the first write of the burst spells it. -/
  path : Path
  /-- When the last write was handled. -/
  last : Instant
deriving DecidableEq, Repr

/-- The path of an input that writes to a given path, in its spelling, and when it is handled. -/
def Input.write? (p : Path) : Input → Option (Path × Instant)
  | .event now e => if e.path == p && e.isArming then some (e.path, now) else none
  | _ => none

/-- The input that reports on its own that writes of a path are complete. -/
def Input.native? (p : Path) : Input → Option Event
  | .event _ e => if e.completes p then some e else none
  | _ => none

/-- The reports, sent during a step, that writes of a path are complete. -/
def Step.closings (p : Path) (s : Step) : List Event := s.sent.filter (Event.completes p)

/-- What a step makes of the burst of a path. -/
def track (p : Path) (b? : Option Burst) (s : Step) : Option Burst :=
  if (s.closings p).isEmpty then
    match s.input.write? p with
    | some (q, now) => some ⟨(b?.map (·.path)).getD q, now⟩
    | none => b?
  else none

/-- The burst of a path that is in progress after a history. -/
def openBurst (p : Path) (h : List Step) : Option Burst := h.foldl (track p) none

/-- The path that the worker itself has to report complete at an input, in the spelling to report,
when a given burst is in progress. -/
def completed? (quiet : Duration) (p : Path) (b? : Option Burst) : Input → Option Path
  | .check now => (b?.filter fun b => b.last + quiet.nanos ≤ now).map (·.path)
  | .event _ e => if e.path == p && e.isDeparture && b?.isSome then some e.path else none
  | .ended => b?.map (·.path)

/-- A step ends a burst. -/
inductive Ends (quiet : Duration) (p : Path) (b : Burst) : Step → Prop
  /-- The path was quiet for long enough. -/
  | expiry (now : Instant) (done : List Path) (due : b.last + quiet.nanos ≤ now)
      (reported : done.filter (· == p) = [b.path]) :
      Ends quiet p b ⟨.check now, done.map .completionOf⟩
  /-- The path goes away, and is reported complete right before. -/
  | departure (now : Instant) (e : Event) (same : (e.path == p) = true)
      (departs : e.isDeparture = true) :
      Ends quiet p b ⟨.event now e, [.completionOf e.path, e]⟩
  /-- The platform says that the write is complete, and nobody else does. -/
  | native (now : Instant) (e : Event) (tells : e.completes p = true) :
      Ends quiet p b ⟨.event now e, [e]⟩
  /-- The input ended. -/
  | ended (done : List Path) (reported : done.filter (· == p) = [b.path]) :
      Ends quiet p b ⟨.ended, done.map .completionOf⟩

/-- What a history promises about the bursts of a path. -/
structure EndsEachBurst (quiet : Duration) (p : Path) (h : List Step) : Prop where
  /-- Every step sends the completions it has to send and then what it passes on. -/
  completes : ∀ before s later, h = before ++ s :: later →
    ∃ done : List Path, s.sent = done.map .completionOf ++ s.input.forwarded ∧
      done.filter (· == p) = (completed? quiet p (openBurst p before) s.input).toList
  /-- The burst that a write belongs to is ended by one report of one later step. -/
  ends : ∀ before s later, h = before ++ s :: later → (s.input.write? p).isSome = true →
    ∃ between last rest b, later = between ++ last :: rest ∧
      (∀ t ∈ s :: between, t.closings p = []) ∧ openBurst p (before ++ s :: between) = some b ∧
      Ends quiet p b last ∧ ∃ f, last.closings p = [f]

/-! ## What a step reports -/

theorem completes_completionOf (p q : Path) : (Event.completionOf q).completes p = (q == p) := by
  unfold Event.completes
  rw [Event.completionOf_has, Bool.and_true]
  rfl

theorem filter_forwarded (p : Path) (i : Input) :
    i.forwarded.filter (Event.completes p) = (i.native? p).toList := by
  cases i with
  | check now => rfl
  | ended => rfl
  | event now e =>
    cases harming : e.isArming with
    | false =>
      cases hcompletes : e.completes p <;>
        simp [Input.forwarded, Input.native?, harming, hcompletes]
    | true =>
      have hclose := Event.not_has_closeWrite_of_isArming harming
      have hrest : (⟨e.path, e.ops \ .write⟩ : Event).has .closeWrite = false := by
        rw [Bool.eq_false_iff]
        exact fun h => Bool.eq_false_iff.mp hclose (Ops.contains_of_contains_diff h)
      cases (e.ops \ .write).isEmpty <;>
        simp [Input.forwarded, Input.native?, harming, Event.completes, hclose, hrest]

theorem stored?_leaves_event (quiet : Duration) (d : Pending) (now : Instant) (e : Event)
    (p : Path) : ((Input.event now e).leaves quiet d).stored? p =
      if e.path == p then
        if e.isArming then some (((d.stored? p).map (·.1)).getD e.path, now + quiet.nanos)
        else if e.has .closeWrite || e.isDeparture then none
        else d.stored? p
      else d.stored? p := by
  simp only [Input.leaves]
  cases hsame : e.path == p with
  | false =>
    split
    · simp [Pending.stored?_arm, hsame]
    · split <;> simp [Pending.stored?_cancel, hsame]
  | true =>
    rw [← Dict.stored?_congr (d := d) hsame]
    split
    · simp [Pending.stored?_arm, hsame]
    · split <;> simp [Pending.stored?_cancel, Dict.stored?_congr hsame, hsame]

/-! ## What the worker keeps is the burst that is in progress -/

/-- A worker that is listened to and keeps, of a path, the burst with its deadline. -/
structure Tracks (w : Worker) (p : Path) (b? : Option Burst) : Prop where
  live : w.output.listening = true
  pending : w.pending.stored? p = b?.map fun b => (b.path, b.last + w.quiet.nanos)

/-- A burst is in progress after a step that writes, or that comes during a burst, and that does not
report the path complete. -/
theorem exists_track_eq_some {p : Path} (b? : Option Burst) {s : Step} (h : s.closings p = [])
    (hopen : b?.isSome = true ∨ (s.input.write? p).isSome = true) :
    ∃ b, track p b? s = some b := by
  unfold track
  rw [h, List.isEmpty_nil, if_pos rfl]
  cases hwrite : s.input.write? p with
  | some qnow => exact ⟨_, rfl⟩
  | none =>
    rw [hwrite, Option.isSome_none, or_iff_left Bool.false_ne_true] at hopen
    exact Option.isSome_iff_exists.mp hopen

namespace Tracks

variable {w : Worker} {p : Path} {b? : Option Burst}

theorem filter_completes (tracks : w.Tracks p b?) (i : Input) :
    (i.completes w.pending).filter (· == p) = (completed? w.quiet p b? i).toList := by
  cases i with
  | check now =>
    show (w.pending.takeExpired now).1.filter (· == p) = _
    rw [Pending.filter_takeExpired, tracks.pending]
    cases b? with
    | none => rfl
    | some b => by_cases hdue : b.last + w.quiet.nanos ≤ now <;>
        simp [completed?, Option.filter_some, hdue]
  | event now e =>
    simp only [Input.completes, completed?]
    cases hsame : e.path == p with
    | false =>
      rw [Bool.false_and, Bool.false_and]
      split <;> simp [hsame]
    | true =>
      -- The event spells `p` in its own way, and what is pending is found all the same.
      have hopen : (w.pending.cancel e.path).1 = b?.isSome := by
        rw [Pending.cancel_fst_eq, Dict.stored?_congr hsame, tracks.pending, Option.isSome_map]
      rw [hopen, Bool.true_and]
      split <;> simp [hsame]
  | ended =>
    show w.pending.drain.1.filter (· == p) = _
    rw [Pending.filter_drain, tracks.pending]
    cases b? <;> rfl

/-- What a step reports complete of a path: what the worker has to, and what the platform says. -/
theorem closings_eq (tracks : w.Tracks p b?) (i : Input) :
    (w.stepAt i).closings p
      = (completed? w.quiet p b? i).toList.map .completionOf ++ (i.native? p).toList := by
  have hcompletes : Event.completes p ∘ Event.completionOf = (· == p) :=
    funext (completes_completionOf p)
  unfold Step.closings stepAt
  rw [List.filter_append, filter_forwarded, List.filter_map, hcompletes, tracks.filter_completes]

/-- The step lemma: the invariant holds again for the burst that the step has made. -/
theorem next (tracks : w.Tracks p b?) (i : Input) :
    (w.next i).Tracks p (track p b? (w.stepAt i)) := by
  refine ⟨next_live tracks.live i, ?_⟩
  rw [next_eq tracks.live, track, tracks.closings_eq]
  show (i.leaves w.quiet w.pending).stored? p = _
  cases i with
  | check now =>
    show (w.pending.takeExpired now).2.stored? p = _
    rw [Pending.stored?_takeExpired, tracks.pending]
    cases b? with
    | none => rfl
    | some b =>
      by_cases hdue : b.last + w.quiet.nanos ≤ now <;>
        simp [completed?, Input.native?, Input.write?, stepAt, after, Option.filter_some, hdue]
  | event now e =>
    rw [stored?_leaves_event, tracks.pending]
    -- In the order of the checks in `Input.leaves`, once the event is one of the path itself.
    cases hsame : e.path == p with
    | false =>
      simp [completed?, Input.native?, Event.completes, stepAt, Input.write?, after, hsame]
    | true =>
      cases harming : e.isArming with
      | true =>
        have hclose := Event.not_has_closeWrite_of_isArming harming
        have hstays := Event.not_isDeparture_of_isArming harming
        cases b? <;>
          simp [completed?, Input.native?, Event.completes, stepAt, Input.write?, after, hsame,
            harming, hclose, hstays]
      | false =>
        cases hclose : e.has .closeWrite with
        | true =>
          simp [Input.native?, Event.completes, hsame, hclose]
        | false =>
          cases hdeparts : e.isDeparture <;> cases b? <;>
            simp [completed?, Input.native?, Event.completes, stepAt, Input.write?, after, hsame,
              harming, hclose, hdeparts]
  | ended =>
    show w.pending.drain.2.stored? p = _
    rw [Pending.stored?_drain]
    cases b? <;> rfl

theorem ends_event {b : Burst} (tracks : w.Tracks p (some b)) (now : Instant) (e : Event)
    (reports : (w.stepAt (.event now e)).closings p ≠ []) :
    Ends w.quiet p b (w.stepAt (.event now e)) ∧
      ∃ f, (w.stepAt (.event now e)).closings p = [f] := by
  rw [tracks.closings_eq] at reports ⊢
  cases hsame : e.path == p with
  | false => simp [completed?, Input.native?, Event.completes, hsame] at reports
  | true =>
    cases hclose : e.has .closeWrite with
    | true =>
      -- Passed on as it is, and nothing besides: such an event is no departure, whatever else it says.
      have htells : e.completes p = true := by simp [Event.completes, hsame, hclose]
      have hstep : w.stepAt (.event now e) = ⟨.event now e, [e]⟩ := by
        simp [stepAt, Input.completes, Input.forwarded, Event.isDeparture, Event.isArming, hclose]
      rw [hstep]
      refine ⟨.native now e htells, e, ?_⟩
      simp [completed?, Input.native?, Event.isDeparture, hclose, htells]
    | false =>
      cases hdeparts : e.isDeparture with
      | false => simp [completed?, Input.native?, Event.completes, hclose, hdeparts] at reports
      | true =>
        have hopen : (w.pending.cancel e.path).1 = true := by
          rw [Pending.cancel_fst_eq, Dict.stored?_congr hsame, tracks.pending]
          rfl
        have hstep : w.stepAt (.event now e) = ⟨.event now e, [.completionOf e.path, e]⟩ := by
          simp [stepAt, Input.completes, Input.forwarded, hdeparts, hopen,
            Event.not_isArming_of_isDeparture hdeparts]
        rw [hstep]
        refine ⟨.departure now e hsame hdeparts, .completionOf e.path, ?_⟩
        simp [completed?, Input.native?, Event.completes, hsame, hclose, hdeparts]

/-- A step that reports the path complete while a burst is in progress ends it, by one report. -/
theorem ends {b : Burst} (tracks : w.Tracks p (some b)) (i : Input)
    (reports : (w.stepAt i).closings p ≠ []) :
    Ends w.quiet p b (w.stepAt i) ∧ ∃ f, (w.stepAt i).closings p = [f] := by
  have hcompletes := tracks.filter_completes i
  cases i with
  | check now =>
    rw [tracks.closings_eq] at reports ⊢
    rw [stepAt_of_forwarded_nil w rfl]
    by_cases hdue : b.last + w.quiet.nanos ≤ now
    · have hcompleted : completed? w.quiet p (some b) (.check now) = some b.path := by
        simp [completed?, Option.filter_some, hdue]
      rw [hcompleted] at hcompletes ⊢
      exact ⟨.expiry now _ hdue hcompletes, .completionOf b.path, rfl⟩
    · simp [completed?, Input.native?, Option.filter_some, hdue] at reports
  | event now e => exact tracks.ends_event now e reports
  | ended =>
    rw [tracks.closings_eq, stepAt_of_forwarded_nil w rfl]
    exact ⟨.ended _ hcompletes, .completionOf b.path, rfl⟩

theorem closings_of_write (tracks : w.Tracks p b?) {i : Input} (h : (i.write? p).isSome = true) :
    (w.stepAt i).closings p = [] := by
  rw [tracks.closings_eq]
  cases i with
  | check now => cases h
  | ended => cases h
  | event now e =>
    have hwrites : e.path == p ∧ e.isArming := by
      simpa [Input.write?, Option.isSome_ite] using h
    have hclose := Event.not_has_closeWrite_of_isArming hwrites.2
    have hstays := Event.not_isDeparture_of_isArming hwrites.2
    simp [completed?, Input.native?, Event.completes, hclose, hstays]

/-- A history that goes on to the end of the input ends the burst that is in progress. -/
theorem exists_ends {b : Burst} (tracks : w.Tracks p (some b)) {is : List Input}
    (hended : is.getLast? = some .ended) :
    ∃ between last rest b', w.history is = between ++ last :: rest ∧
      (∀ t ∈ between, t.closings p = []) ∧ between.foldl (track p) (some b) = some b' ∧
      Ends w.quiet p b' last ∧ ∃ f, last.closings p = [f] := by
  induction is generalizing w b with
  | nil => cases hended
  | cons i rest ih =>
    rw [history_cons tracks.live]
    by_cases hreports : (w.stepAt i).closings p = []
    · -- The burst goes on, perhaps with one more write, and the rest of the history ends it.
      obtain ⟨b₁, hb₁⟩ := exists_track_eq_some (some b) hreports (.inl rfl)
      have hnext := tracks.next i
      rw [hb₁] at hnext
      have hrest : rest.getLast? = some .ended := by
        cases rest with
        | nil =>
          -- The end of the input would have ended the burst.
          obtain rfl : i = .ended := Option.some.inj hended
          rw [tracks.closings_eq] at hreports
          cases hreports
        | cons i' rest => rwa [List.getLast?_cons_cons] at hended
      obtain ⟨between, last, later, b', hlater, hbetween, hb', hends⟩ := ih hnext hrest
      rw [next_quiet tracks.live] at hends
      refine ⟨w.stepAt i :: between, last, later, b', ?_, ?_, ?_, hends⟩
      · rw [hlater]
        rfl
      · intro t ht
        rcases List.mem_cons.mp ht with rfl | ht
        · exact hreports
        · exact hbetween t ht
      · rw [List.foldl_cons, hb₁, hb']
    · obtain ⟨hends, hone⟩ := tracks.ends i hreports
      exact ⟨[], w.stepAt i, (w.next i).history rest, b, rfl, nofun, rfl, hends, hone⟩

/-- So after a write there is one step, the first that reports the path complete, and it ends the
burst that the write belongs to. -/
theorem exists_ends_of_write (tracks : w.Tracks p b?) {i : Input} {rest : List Input}
    (hended : (i :: rest).getLast? = some .ended) (hwrite : (i.write? p).isSome = true) :
    ∃ between last later b, (w.next i).history rest = between ++ last :: later ∧
      (∀ t ∈ w.stepAt i :: between, t.closings p = []) ∧
      between.foldl (track p) (track p b? (w.stepAt i)) = some b ∧
      Ends w.quiet p b last ∧ ∃ f, last.closings p = [f] := by
  have hsilent : (w.stepAt i).closings p = [] := tracks.closings_of_write hwrite
  obtain ⟨b₁, hb₁⟩ := exists_track_eq_some b? hsilent (.inr hwrite)
  have hnext := tracks.next i
  rw [hb₁] at hnext
  have hrest : rest.getLast? = some .ended := by
    cases rest with
    | nil =>
      -- A write is not the end of the input.
      obtain rfl : i = .ended := Option.some.inj hended
      cases hwrite
    | cons i' rest => rwa [List.getLast?_cons_cons] at hended
  obtain ⟨between, last, later, b, hlater, hbetween, hb, hends⟩ := hnext.exists_ends hrest
  rw [next_quiet tracks.live] at hends
  refine ⟨between, last, later, b, hlater, ?_, ?_, hends⟩
  · intro t ht
    rcases List.mem_cons.mp ht with rfl | ht
    · exact hsilent
    · exact hbetween t ht
  · rw [hb₁, hb]

/-- The run lemma: behind any beginning of a history, the rest of it is the history of a worker for
which the invariant holds. -/
theorem of_append (tracks : w.Tracks p b?) {is : List Input} {before later : List Step}
    (h : w.history is = before ++ later) :
    ∃ (w' : Worker) (is' : List Input), later = w'.history is' ∧
      is = before.map (·.input) ++ is' ∧ w'.Tracks p (before.foldl (track p) b?) ∧
      w'.quiet = w.quiet := by
  induction before generalizing w b? is with
  | nil => exact ⟨w, is, h.symm, rfl, tracks, rfl⟩
  | cons s before ih =>
    cases is with
    | nil => cases h
    | cons i rest =>
      rw [history_cons tracks.live, List.cons_append, List.cons.injEq] at h
      obtain ⟨hs, hrest⟩ := h
      obtain ⟨w', is', hlater, his, htracks, hquiet⟩ := ih (tracks.next i) hrest
      subst hs
      refine ⟨w', is', hlater, ?_, htracks, hquiet.trans (next_quiet tracks.live i)⟩
      rw [his]
      rfl

end Tracks

theorem tracks_fresh (quiet : Duration) (p : Path) : (fresh quiet).Tracks p none :=
  ⟨rfl, Dict.stored?_empty p⟩

/-- **Every burst completes once.**  Take any window, any mixture of looks at the clock and of
events, and then the end of the input.  Every input has its step, and of every path the history ends
each burst by one report, at the right time. -/
theorem history_endsEachBurst (quiet : Duration) (inputs : List Input) (p : Path) :
    ((fresh quiet).history (inputs ++ [.ended])).map (·.input) = inputs ++ [.ended] ∧
      EndsEachBurst quiet p ((fresh quiet).history (inputs ++ [.ended])) := by
  have htracks := tracks_fresh quiet p
  refine ⟨history_inputs htracks.live _, ?_, ?_⟩
  · intro before s later h
    obtain ⟨w, is, hlater, -, hw, hquiet⟩ := htracks.of_append h
    cases is with
    | nil => cases hlater
    | cons i rest =>
      rw [history_cons hw.live, List.cons.injEq] at hlater
      obtain ⟨rfl, -⟩ := hlater
      have hfilter := hw.filter_completes i
      rw [hquiet] at hfilter
      exact ⟨i.completes w.pending, rfl, hfilter⟩
  · intro before s later h hwrite
    obtain ⟨w, is, hlater, his, hw, hquiet⟩ := htracks.of_append h
    cases is with
    | nil => cases hlater
    | cons i rest =>
      rw [history_cons hw.live, List.cons.injEq] at hlater
      obtain ⟨rfl, rfl⟩ := hlater
      have hended : (i :: rest).getLast? = some .ended := by
        have hlast := congrArg List.getLast? his
        rw [List.getLast?_concat, List.getLast?_append] at hlast
        exact hlast.symm
      obtain ⟨between, last, later, b, hlater, hsilent, hb, hends⟩ :=
        hw.exists_ends_of_write hended hwrite
      rw [hquiet] at hends
      refine ⟨between, last, later, b, hlater, hsilent, ?_, hends⟩
      rw [openBurst, List.foldl_append, List.foldl_cons, hb]

/-- A removal completes the burst it finds, and the window that was running completes nothing. -/
example : ((fresh ⟨100⟩).history [.event 0 ⟨⟨[0x70]⟩, .write⟩, .event 30 ⟨⟨[0x70]⟩, .write⟩,
      .check 100, .event 120 ⟨⟨[0x70]⟩, .remove⟩, .check 200, .ended]).map (·.sent)
    = [[], [], [], [⟨⟨[0x70]⟩, .closeWrite⟩, ⟨⟨[0x70]⟩, .remove⟩], [], []] := by cbv

end Worker

end FileWatch
