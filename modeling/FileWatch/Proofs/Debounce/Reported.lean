import Mathlib
import FileWatch.Proofs.Debounce.Bursts

/-!
# Writes that are reported

Whoever listens to a worker learns of a write by a completion, and sees no write as such.  What becomes of
an event that says more than that there was a write depends on what else it says, and the first thing
that `handle` looks for settles it.

* An event that says itself that the path is complete goes out as it is, and with it the word that there
  was a write; it is the completion of its own write.
* A departure goes out behind the completion of the burst that it ends.  Where there is no burst, nobody
  completes the write that came with it.
* Any other write begins a burst or goes on with one, and a later step ends that (`Tracks.reported`).

So a write goes unreported only with a departure that finds no burst, and goes out as a write only with a
completion or a departure that came in (`writes_reported`); both happen (`writes_not_all_reported`).
-/

namespace FileWatch

theorem Ops.not_contains_diff_write (a : Ops) : (a \ .write).contains .write = false := by
  have hnone : (a.bits &&& ~~~Ops.write.bits) &&& Ops.write.bits = 0 := by
    rw [UInt32.and_assoc, UInt32.not_and_self, UInt32.and_zero]
  show (((a.bits &&& ~~~Ops.write.bits) &&& Ops.write.bits) == Ops.write.bits) = false
  rw [hnone]
  decide

namespace Event

/-- What can come of a write: it is reported with the event, it goes with a departure, or it belongs to a
burst. -/
theorem write_cases {e : Event} (hwrite : e.has .write = true) :
    e.has .closeWrite = true ∨ e.isDeparture = true ∨ e.isArming = true := by
  unfold isDeparture isArming
  rw [hwrite]
  cases e.has .closeWrite with
  | true => exact .inl rfl
  | false => cases e.ops.intersects (.remove ∪ .rename) <;> simp

end Event

namespace Worker

variable {w : Worker} {p : Path} {b? : Option Burst} {i : Input} {e : Event}

/-! ## What goes out as a write -/

/-- Every step of a history is one that some worker makes. -/
theorem exists_stepAt (live : w.output.listening = true) {is : List Input} {s : Step}
    (h : s ∈ w.history is) : ∃ v : Worker, s = v.stepAt s.input := by
  induction is generalizing w with
  | nil => cases h
  | cons i rest ih =>
    rw [history_cons live] at h
    rcases List.mem_cons.mp h with rfl | hlater
    · exact ⟨w, rfl⟩
    · exact ih (next_live live i) hlater

/-- Of a write that belongs to a burst only the rest is passed on. -/
theorem of_mem_forwarded_of_write (h : e ∈ i.forwarded) (hwrite : e.has .write = true) :
    ∃ now, i = .event now e ∧ (e.has .closeWrite = true ∨ e.isDeparture = true) := by
  cases i with
  | check now => cases h
  | ended => cases h
  | event now f =>
    unfold Input.forwarded at h
    cases harming : f.isArming with
    | true =>
      simp only [harming, if_true] at h
      split at h
      · cases h
      · rw [List.mem_singleton.mp h] at hwrite
        have hrest := f.ops.not_contains_diff_write
        rw [show (f.ops \ .write).contains .write = true from hwrite] at hrest
        cases hrest
    | false =>
      simp only [harming, Bool.false_eq_true, if_false] at h
      obtain rfl := List.mem_singleton.mp h
      rcases Event.write_cases hwrite with hclose | hdeparts | harms
      · exact ⟨now, rfl, .inl hclose⟩
      · exact ⟨now, rfl, .inr hdeparts⟩
      · rw [harming] at harms
        cases harms

theorem of_mem_sent_of_write (live : w.output.listening = true) {is : List Input} {s : Step}
    (hs : s ∈ w.history is) (h : e ∈ s.sent) (hwrite : e.has .write = true) :
    ∃ now, s.input = .event now e ∧ (e.has .closeWrite = true ∨ e.isDeparture = true) := by
  obtain ⟨v, hv⟩ := exists_stepAt live hs
  rw [hv] at h
  rcases List.mem_append.mp h with hfound | hpassed
  · -- A completion that was found out says nothing else.
    obtain ⟨q, -, rfl⟩ := List.mem_map.mp hfound
    have hnone : Ops.closeWrite.contains .write = false := by decide
    rw [show Ops.closeWrite.contains .write = true from hwrite] at hnone
    cases hnone
  · exact of_mem_forwarded_of_write hpassed hwrite

/-! ## What reports a write -/

/-- A write is reported by its own step or by a later one, unless it goes with a departure that finds no
burst. -/
theorem Tracks.reported (tracks : w.Tracks e.path b?) {now : Instant} {rest : List Input}
    (hended : (Input.event now e :: rest).getLast? = some .ended) (hwrite : e.has .write = true)
    (hopen : e.isDeparture = true → b?.isSome = true) :
    ∃ t ∈ w.history (.event now e :: rest), ∃ f ∈ t.sent, f.completes e.path = true := by
  rw [history_cons tracks.live]
  rcases Event.write_cases hwrite with hclose | hdeparts | harming
  · have hsent : (w.stepAt (.event now e)).sent = [e] := by
      simp [stepAt, Input.completes, Input.forwarded, Event.isDeparture, Event.isArming, hclose]
    refine ⟨_, List.mem_cons_self, e, ?_, ?_⟩
    · rw [hsent]
      exact List.mem_singleton_self e
    · simp [Event.completes, hclose]
  · have hfound := tracks.filter_completes (.event now e)
    simp only [completed?, BEq.rfl, hdeparts, hopen hdeparts, Bool.and_self, if_true] at hfound
    have hmem : e.path ∈ (Input.event now e).completes w.pending := by
      have hself : e.path ∈ ((Input.event now e).completes w.pending).filter (· == e.path) := by
        rw [hfound]
        exact List.mem_singleton_self e.path
      exact (List.mem_filter.mp hself).1
    refine ⟨_, List.mem_cons_self, .completionOf e.path, ?_, ?_⟩
    · exact List.mem_append_left _ (List.mem_map_of_mem hmem)
    · rw [completes_completionOf]
      exact BEq.rfl
  · have hwrites : ((Input.event now e).write? e.path).isSome = true := by
      simp [Input.write?, harming]
    obtain ⟨between, last, later, b, hlater, -, -, -, f, hf⟩ :=
      tracks.exists_ends_of_write hended hwrites
    have hlast : last ∈ (w.next (.event now e)).history rest := by
      rw [hlater]
      exact List.mem_append_right _ List.mem_cons_self
    have hreports : f ∈ last.closings e.path := by
      rw [hf]
      exact List.mem_singleton_self f
    obtain ⟨hsent, hcompletes⟩ := List.mem_filter.mp hreports
    exact ⟨last, List.mem_cons_of_mem _ hlast, f, hsent, hcompletes⟩

/-- **Writes are reported.**  Take any window, any mixture of looks at the clock and of events, and then
the end of the input.  Every write of a path is reported by a completion of the path that goes out at its
own step or later, unless it goes with a departure that finds no burst.  And what goes out as a write came
in like that, with a completion or a departure. -/
theorem writes_reported (quiet : Duration) (inputs : List Input) :
    let h := (fresh quiet).history (inputs ++ [.ended])
    h.map (·.input) = inputs ++ [.ended] ∧
      (∀ before now e sent later, h = before ++ ⟨.event now e, sent⟩ :: later →
        e.has .write = true → (e.isDeparture = true → (openBurst e.path before).isSome = true) →
        ∃ t ∈ ⟨.event now e, sent⟩ :: later, ∃ f ∈ t.sent, f.completes e.path = true) ∧
      ∀ s ∈ h, ∀ f ∈ s.sent, f.has .write = true →
        ∃ now, s.input = .event now f ∧ (f.has .closeWrite = true ∨ f.isDeparture = true) := by
  intro h
  have hlive : (fresh quiet).output.listening = true := rfl
  refine ⟨history_inputs hlive _, ?_, ?_⟩
  · intro before now e sent later hcut hwrite hopen
    obtain ⟨w, is, hlater, his, hw, -⟩ := (tracks_fresh quiet e.path).of_append hcut
    cases is with
    | nil => cases hlater
    | cons i rest =>
      obtain rfl : .event now e = i := by
        rw [history_cons hw.live, List.cons.injEq] at hlater
        exact congrArg Step.input hlater.1
      have hended : (Input.event now e :: rest).getLast? = some .ended := by
        have hlast := congrArg List.getLast? his
        rw [List.getLast?_concat, List.getLast?_append] at hlast
        exact hlast.symm
      rw [hlater]
      exact hw.reported hended hwrite hopen
  · intro s hs f hf hwrite
    exact of_mem_sent_of_write hlive hs hf hwrite

/-- A removal, and that the path was written to, told at once. -/
def removedWritten : Event := ⟨⟨[0x70]⟩, .write ∪ .remove⟩

/-- The path is removed, comes into being again, and is removed again, and each time it was written to. -/
def removedTwice : List Input :=
  [.event 0 removedWritten, .event 10 ⟨⟨[0x70]⟩, .create ∪ .write⟩, .event 30 removedWritten]

/-- What is done up to the second removal: no burst is in progress at the first, and then one begins. -/
def removedOnce : List Step :=
  [⟨.event 0 removedWritten, [removedWritten]⟩,
    ⟨.event 10 ⟨⟨[0x70]⟩, .create ∪ .write⟩, [⟨⟨[0x70]⟩, .create⟩]⟩]

/-- The second removal completes the burst that it finds. -/
theorem writes_reported_removedTwice :
    (fresh ⟨100⟩).history (removedTwice ++ [.ended]) = removedOnce ++
      [⟨.event 30 removedWritten, [.completionOf ⟨[0x70]⟩, removedWritten]⟩, ⟨.ended, []⟩] ∧
    removedWritten.has .write = true ∧ (openBurst removedWritten.path removedOnce).isSome = true ∧
    (∃ t ∈ [⟨.event 30 removedWritten, [.completionOf ⟨[0x70]⟩, removedWritten]⟩, ⟨.ended, []⟩],
      ∃ f ∈ Step.sent t, f.completes removedWritten.path = true) ∧
    (∃ now, Input.event 30 removedWritten = .event now removedWritten ∧
      (removedWritten.has .closeWrite = true ∨ removedWritten.isDeparture = true)) := by
  have hcut : (fresh ⟨100⟩).history (removedTwice ++ [.ended]) = removedOnce ++
      [⟨.event 30 removedWritten, [.completionOf ⟨[0x70]⟩, removedWritten]⟩, ⟨.ended, []⟩] := by cbv
  have hwrite : removedWritten.has .write = true := by decide
  have hopen : (openBurst removedWritten.path removedOnce).isSome = true := by cbv
  obtain ⟨-, hreported, hpassed⟩ := writes_reported ⟨100⟩ removedTwice
  refine ⟨hcut, hwrite, hopen, hreported removedOnce 30 _ _ _ hcut hwrite fun _ => hopen, ?_⟩
  rw [hcut] at hpassed
  exact hpassed _ (List.mem_append_right _ List.mem_cons_self) removedWritten (by simp) hwrite

/-- A completion, and that the path was written to, told at once. -/
def completedWritten : Event := ⟨⟨[0x70]⟩, .write ∪ .closeWrite⟩

/-- **Where a write goes out as a write, and where it is not reported.**  From a completion that comes in
nothing is taken away.  And of a write that comes with a removal, where no burst is in progress, there is
no completion at all. -/
theorem writes_not_all_reported :
    ((fresh ⟨100⟩).history [.event 0 completedWritten, .ended]).flatMap (·.sent) = [completedWritten] ∧
      completedWritten.has .write = true ∧
      ((fresh ⟨100⟩).history [.event 0 removedWritten, .ended]).flatMap (·.sent) = [removedWritten] ∧
      removedWritten.has .write = true ∧
      removedWritten.completes removedWritten.path = false := by
  refine ⟨by cbv, by decide, by cbv, by decide, by cbv⟩

end Worker

end FileWatch
