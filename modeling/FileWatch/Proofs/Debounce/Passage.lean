import FileWatch.Proofs.Debounce.Bursts
import FileWatch.Proofs.Mask

/-!
# What a worker passes on

A worker sends two things: what came in, and completions that it has found out itself.  On the stream
nothing tells the two apart, for a completion that came in looks like one that was found out.  So here
everything that is sent carries its origin (`Sending`).  `sendings` has one entry for each `send` of a
step, in the order of the checks in `handle`, and what the worker sends are these entries without
their origin (`serve_eq_sendings`).

`Event.passes` says what should be left of an event, and looks at nothing but the event.  What was found
out is settled by the bursts that a history shows (`Tracks.filter_found`).  So the events that are
passed on are those of the input, whatever completions stand between them (`input_passed_on`).
-/

namespace FileWatch

namespace Ops

variable {a b : Ops}

theorem intersects_departure_eq :
    a.intersects (.remove ∪ .rename) = (a.contains .remove || a.contains .rename) := by
  have hunion : a.intersects (.remove ∪ .rename) = (a.intersects .remove || a.intersects .rename) :=
    Mask.has_or_right a.bits Ops.remove.bits Ops.rename.bits
  rw [hunion, intersects_eq_contains (b := .remove) (k := 2) rfl (by decide),
    intersects_eq_contains (b := .rename) (k := 3) rfl (by decide)]

/-- Nothing is left of a set without a part of it only if the part is all of it. -/
theorem isEmpty_diff_iff (h : a.contains b = true) : (a \ b).isEmpty = true ↔ a = b := by
  constructor
  · intro hempty
    have hrest : a.bits &&& ~~~b.bits = 0 := eq_of_beq hempty
    have hshared : a.bits &&& b.bits = b.bits := eq_of_beq h
    have hsplit : a.bits = (a.bits &&& b.bits) ||| (a.bits &&& ~~~b.bits) := by
      apply UInt32.eq_of_toBitVec_eq
      rw [UInt32.toBitVec_or, UInt32.toBitVec_and, UInt32.toBitVec_and, UInt32.toBitVec_not,
        ← BitVec.and_or_distrib_left, BitVec.or_not_self, BitVec.and_allOnes]
    rw [hshared, hrest, UInt32.or_zero] at hsplit
    cases a
    cases b
    cases hsplit
    rfl
  · rintro rfl
    show (a.bits &&& ~~~a.bits == 0) = true
    simp

end Ops

/-! ## What should be left of the input -/

namespace Event

/-- What should come out for an event.  One that says that a path is complete, or goes away, comes out
as it is, and so does one that is no write.  Of any other the write is taken away. -/
def passes (e : Event) : List Event :=
  if e.has .closeWrite || e.has .remove || e.has .rename || !e.has .write then [e]
  else if e.ops = .write then []
  else [⟨e.path, e.ops \ .write⟩]

theorem isArming_eq (e : Event) :
    e.isArming = !(e.has .closeWrite || e.has .remove || e.has .rename || !e.has .write) := by
  have hgone : e.ops.intersects (.remove ∪ .rename) = (e.has .remove || e.has .rename) :=
    Ops.intersects_departure_eq
  unfold isArming
  rw [hgone]
  cases e.has .write <;> cases e.has .closeWrite <;> simp

end Event

namespace Worker

def Input.passes : Input → List Event
  | .event _ e => e.passes
  | _ => []

theorem forwarded_eq_passes (i : Input) : i.forwarded = i.passes := by
  cases i with
  | check now => rfl
  | ended => rfl
  | event now e =>
    simp only [Input.forwarded, Input.passes, Event.passes]
    have harming := e.isArming_eq
    cases hwhole : e.has .closeWrite || e.has .remove || e.has .rename || !e.has .write with
    | true =>
      rw [hwhole] at harming
      simp [harming]
    | false =>
      have hwrite : e.has .write = true := by
        simp only [Bool.or_eq_false_iff] at hwhole
        simpa using hwhole.2
      have hrest : (e.ops \ .write).isEmpty = true ↔ e.ops = .write := Ops.isEmpty_diff_iff hwrite
      rw [hwhole] at harming
      simp [harming, hrest]

/-! ## What is sent, and where it comes from -/

/-- Something that a worker sends. -/
inductive Sending where
  /-- It has found out that writes of a path are complete. -/
  | found (path : Path)
  /-- This is what came in, or what is left of it. -/
  | passed (event : Event)
deriving DecidableEq, Repr

namespace Sending

def event : Sending → Event
  | found p => .completionOf p
  | passed e => e

def found? : Sending → Option Path
  | found p => some p
  | passed _ => none

def passed? : Sending → Option Event
  | found _ => none
  | passed e => some e

end Sending

/-- What is sent at an input. -/
def sendings (w : Worker) : Input → List Sending
  | .check now => (w.pending.takeExpired now).1.map .found
  | .event _ e =>
    if e.has .closeWrite then [.passed e]
    else if e.ops.intersects (.remove ∪ .rename) then
      if (w.pending.cancel e.path).1 then [.found e.path, .passed e] else [.passed e]
    else if !e.has .write then [.passed e]
    else if (e.ops \ .write).isEmpty then [] else [.passed ⟨e.path, e.ops \ .write⟩]
  | .ended => w.pending.drain.1.map .found

/-- What is sent at some inputs, one after the other. -/
def sendingsAll (w : Worker) : List Input → List Sending
  | [] => []
  | i :: rest => w.sendings i ++ (w.next i).sendingsAll rest

variable {w : Worker}

/-- What was found out comes first, and then what is passed on. -/
theorem sendings_eq (w : Worker) (i : Input) :
    w.sendings i = (i.completes w.pending).map .found ++ i.forwarded.map .passed := by
  cases i with
  | check now => simp [sendings, Input.completes, Input.forwarded]
  | ended => simp [sendings, Input.completes, Input.forwarded]
  | event now e =>
    unfold sendings Input.completes Input.forwarded Event.isArming Event.isDeparture
    cases hclose : e.has .closeWrite with
    | true => simp [hclose]
    | false =>
      cases hgone : e.ops.intersects (.remove ∪ .rename) with
      | true => cases hopen : (w.pending.cancel e.path).1 <;> simp [hclose, hgone, hopen]
      | false =>
        cases hwrite : e.has .write with
        | false => simp [hclose, hgone, hwrite]
        | true => cases hrest : (e.ops \ .write).isEmpty <;> simp [hclose, hgone, hwrite, hrest]

/-- **A step sends its sendings.** -/
theorem serve_eq_sendings (live : w.output.listening = true) (i : Input) :
    w.serve i = (true, w.after (i.leaves w.quiet w.pending) ((w.sendings i).map Sending.event)) := by
  have hfound : Sending.event ∘ Sending.found = Event.completionOf := rfl
  have hpassed : Sending.event ∘ Sending.passed = id := rfl
  rw [serve_eq live, sendings_eq, List.map_append, List.map_map, List.map_map, hfound, hpassed,
    List.map_id]

theorem filterMap_passed (w : Worker) (i : Input) :
    (w.sendings i).filterMap Sending.passed? = i.passes := by
  have hfound : Sending.passed? ∘ Sending.found = fun _ => none := rfl
  have hpassed : Sending.passed? ∘ Sending.passed = some := rfl
  rw [sendings_eq, List.filterMap_append, List.filterMap_map, List.filterMap_map, hfound, hpassed,
    List.filterMap_some, forwarded_eq_passes]
  simp

theorem filterMap_found (w : Worker) (i : Input) :
    (w.sendings i).filterMap Sending.found? = i.completes w.pending := by
  have hfound : Sending.found? ∘ Sending.found = some := rfl
  have hpassed : Sending.found? ∘ Sending.passed = fun _ => none := rfl
  rw [sendings_eq, List.filterMap_append, List.filterMap_map, List.filterMap_map, hfound, hpassed,
    List.filterMap_some]
  simp

/-! ## Runs -/

theorem serveAll_sendings (live : w.output.listening = true) (is : List Input) :
    (w.serveAll is).output.sent = w.output.sent ++ (w.sendingsAll is).map Sending.event := by
  induction is generalizing w with
  | nil => exact (List.append_nil _).symm
  | cons i rest ih =>
    rw [serveAll_next live, ih (next_live live i), sendingsAll, List.map_append,
      ← List.append_assoc, next, serve_eq_sendings live]
    rfl

theorem sendingsAll_passed (w : Worker) (is : List Input) :
    (w.sendingsAll is).filterMap Sending.passed? = is.flatMap Input.passes := by
  induction is generalizing w with
  | nil => rfl
  | cons i rest ih =>
    rw [sendingsAll, List.filterMap_append, filterMap_passed, ih, List.flatMap_cons]

namespace Tracks

variable {p : Path} {b? : Option Burst}

theorem filter_found (tracks : w.Tracks p b?) (i : Input) :
    ((w.sendings i).filterMap Sending.found?).filter (· == p)
      = (completed? w.quiet p b? i).toList := by
  rw [filterMap_found, tracks.filter_completes]

/-- After some inputs the invariant holds for the burst that their history shows. -/
theorem serveAll (tracks : w.Tracks p b?) (is : List Input) :
    (w.serveAll is).Tracks p ((w.history is).foldl (track p) b?) ∧
      (w.serveAll is).quiet = w.quiet := by
  induction is generalizing w b? with
  | nil => exact ⟨tracks, rfl⟩
  | cons i rest ih =>
    obtain ⟨htracks, hquiet⟩ := ih (tracks.next i)
    rw [serveAll_next tracks.live, history_cons tracks.live, List.foldl_cons]
    exact ⟨htracks, hquiet.trans (next_quiet tracks.live i)⟩

end Tracks

/-- **The input is passed on.**  Take any window, any mixture of looks at the clock and of events, and
then the end of the input.  What is sent is `sendingsAll`.  Without what the worker has found out
itself, it is what should be left of the events, in their order.  And what it has found out are, path
by path and step by step, the bursts that it has to complete. -/
theorem input_passed_on (quiet : Duration) (inputs : List Input) :
    ((fresh quiet).serveAll (inputs ++ [.ended])).output.sent
        = ((fresh quiet).sendingsAll (inputs ++ [.ended])).map Sending.event ∧
      ((fresh quiet).sendingsAll (inputs ++ [.ended])).filterMap Sending.passed?
        = inputs.flatMap Input.passes ∧
      ∀ before i p, ((((fresh quiet).serveAll before).sendings i).filterMap Sending.found?).filter
          (· == p) = (completed? quiet p (openBurst p ((fresh quiet).history before)) i).toList := by
  refine ⟨?_, ?_, ?_⟩
  · rw [serveAll_sendings (tracks_fresh quiet ⟨[]⟩).live]
    rfl
  · rw [sendingsAll_passed, List.flatMap_append]
    exact List.append_nil _
  · intro before i p
    obtain ⟨htracks, hquiet⟩ := (tracks_fresh quiet p).serveAll before
    rw [htracks.filter_found, hquiet]
    rfl

/-- A completion that came in is passed on like any event, and the one that was found out is not. -/
example : (fresh ⟨100⟩).sendingsAll [.event 0 ⟨⟨[0x61]⟩, .create ∪ .write⟩, .check 200,
      .event 300 (.completionOf ⟨[0x61]⟩)]
    = [.passed ⟨⟨[0x61]⟩, .create⟩, .found ⟨[0x61]⟩, .passed (.completionOf ⟨[0x61]⟩)] := by cbv

end Worker

end FileWatch
