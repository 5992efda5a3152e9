import Mathlib
import FileWatch.Shell.Printer

/-!
# Two streams, printed to their ends

The printer waits for two streams at once and takes from one that is ready.  Which one it takes when both
are, when things arrive, and which stream ends first, is nobody's promise.  So here are the two streams
with their senders (`Feed`), and the printer between them (`Printing`).  A schedule says who does
something next, and any schedule will do.

What a printer has printed depends on what it has heard, and on that stream by stream only (`Prints`).  What
it has heard of a stream is what was sent and does not wait any more (`Feed.Carries`).  And with each
thing that is done there is one less to do (`Tracks.of_fire`), so that no schedule goes on for ever; where
one stops, the printer has heard the end of both streams (`isDone_iff_stuck`).
-/

namespace FileWatch

/-! ## Streams -/

/-- A stream on its way to the printer. -/
structure Feed (α : Type) where
  /-- What is still to be sent. -/
  ahead : List α
  /-- What was sent and waits to be taken. -/
  waiting : List α
  /-- Whether the sender has hung up. -/
  hungUp : Bool

namespace Feed

variable {α : Type}

/-- A stream of which nothing was sent. -/
def ofList (items : List α) : Feed α := ⟨items, [], false⟩

/-- The sender sends what is next, or hangs up if there is nothing more. -/
def advance (f : Feed α) : Option (Feed α) :=
  match f.ahead with
  | a :: rest => some { f with ahead := rest, waiting := f.waiting ++ [a] }
  | [] => if f.hungUp then none else some { f with hungUp := true }

/-- What is ready to be taken: what has waited longest or, if nothing waits and the sender has hung up,
the end of the stream.  The end is there to be taken again and again. -/
def ready? (f : Feed α) : Option (Option α × Feed α) :=
  match f.waiting with
  | a :: rest => some (some a, { f with waiting := rest })
  | [] => if f.hungUp then some (none, f) else none

/-- What of some items has been taken, and whether their end has not. -/
structure Carries (f : Feed α) (items taken : List α) (isOpen : Bool) : Prop where
  items_eq : items = taken ++ f.waiting ++ f.ahead
  sent : f.hungUp = true → f.ahead = []
  closed : isOpen = false → f.hungUp = true ∧ f.waiting = []

/-- How much is left to do with a stream. -/
def left (f : Feed α) (isOpen : Bool) : Nat :=
  2 * f.ahead.length + f.waiting.length + (!f.hungUp).toNat + isOpen.toNat

theorem carries_ofList (items : List α) : (ofList items).Carries items [] true :=
  ⟨rfl, nofun, nofun⟩

variable {f g : Feed α} {items taken : List α} {isOpen : Bool}

theorem Carries.advance (carries : f.Carries items taken isOpen) (h : f.advance = some g) :
    g.Carries items taken isOpen ∧ g.left isOpen + 1 = f.left isOpen := by
  obtain ⟨ahead, waiting, hungUp⟩ := f
  obtain ⟨hitems, hsent, hended⟩ := carries
  unfold Feed.advance at h
  cases ahead with
  | nil =>
    cases hungUp with
    | true => cases h
    | false =>
      cases h
      refine ⟨⟨hitems, fun _ => rfl, fun hclosed => ⟨rfl, (hended hclosed).2⟩⟩, ?_⟩
      simp only [left, Bool.not_true, Bool.not_false, Bool.toNat_true, Bool.toNat_false]
      omega
  | cons a rest =>
    have hopen : isOpen = true := by
      by_contra hclosed
      cases hsent (hended (Bool.eq_false_iff.mpr hclosed)).1
    cases h
    refine ⟨⟨?_, fun hungUp => (List.cons_ne_nil a rest (hsent hungUp)).elim,
      fun hclosed => by rw [hopen] at hclosed; cases hclosed⟩, ?_⟩
    · rw [hitems]
      simp
    · simp only [left, List.length_append, List.length_cons, List.length_nil]
      omega

theorem Carries.item (carries : f.Carries items taken true) {a : α}
    (h : f.ready? = some (some a, g)) :
    g.Carries items (taken ++ [a]) true ∧ g.left true + 1 = f.left true := by
  obtain ⟨ahead, waiting, hungUp⟩ := f
  obtain ⟨hitems, hsent, -⟩ := carries
  unfold Feed.ready? at h
  cases waiting with
  | nil => cases hungUp <;> cases h
  | cons b rest =>
    cases h
    refine ⟨⟨?_, hsent, nofun⟩, ?_⟩
    · rw [hitems]
      simp
    · simp only [left, List.length_cons]
      omega

theorem Carries.ended (carries : f.Carries items taken true) (h : f.ready? = some (none, g)) :
    g.Carries items taken false ∧ g.left false + 1 = f.left true := by
  obtain ⟨ahead, waiting, hungUp⟩ := f
  unfold Feed.ready? at h
  cases waiting with
  | cons b rest => cases h
  | nil =>
    cases hungUp with
    | false => cases h
    | true =>
      cases h
      exact ⟨⟨carries.items_eq, carries.sent, fun _ => ⟨rfl, rfl⟩⟩, rfl⟩

/-- As long as the end of a stream was not taken there is something to do with it. -/
theorem exists_advance_or_ready (f : Feed α) :
    (∃ g, f.advance = some g) ∨ ∃ x, f.ready? = some x := by
  obtain ⟨ahead, waiting, hungUp⟩ := f
  unfold advance ready?
  cases ahead with
  | cons a rest => exact .inl ⟨_, rfl⟩
  | nil =>
    cases hungUp with
    | false => exact .inl ⟨_, rfl⟩
    | true =>
      right
      cases waiting with
      | nil => exact ⟨_, rfl⟩
      | cons a rest => exact ⟨_, rfl⟩

theorem Carries.advance_eq_none (carries : f.Carries items taken false) : f.advance = none := by
  obtain ⟨hungUp, -⟩ := carries.closed rfl
  unfold Feed.advance
  rw [carries.sent hungUp, hungUp]
  rfl

theorem Carries.taken_eq (carries : f.Carries items taken false) : taken = items := by
  obtain ⟨hungUp, hwaiting⟩ := carries.closed rfl
  rw [carries.items_eq, hwaiting, carries.sent hungUp, List.append_nil, List.append_nil]

end Feed

/-! ## What is printed of what was heard -/

namespace Signal

def event? : Signal → Option Event
  | .event e => some e
  | _ => none

def failure? : Signal → Option Failure
  | .failure f => some f
  | _ => none

/-- What is ready of the stream of events, as a signal. -/
def ofEvents : Option Event → Signal
  | some e => .event e
  | none => .eventsEnded

def ofFailures : Option Failure → Signal
  | some f => .failure f
  | none => .failuresEnded

end Signal

namespace Line

/-- The event on a line, with its number. -/
def event? : Line → Option (Event × Nat)
  | .event n e => some (e, n)
  | .failure _ => none

def failure? : Line → Option Failure
  | .event _ _ => none
  | .failure f => some f

end Line

namespace Printer

variable (keep : Event → Bool)

/-- What a printer has printed after it has heard some signals: of the events those that are wanted,
numbered from one, and all failures. -/
structure Prints (heard : List Signal) (p : Printer) : Prop where
  seen : p.seen = ((heard.filterMap Signal.event?).filter keep).length
  events : p.lines.filterMap Line.event? = ((heard.filterMap Signal.event?).filter keep).zipIdx 1
  failures : p.lines.filterMap Line.failure? = heard.filterMap Signal.failure?
  eventsEnded : p.eventsOpen = false ↔ Signal.eventsEnded ∈ heard
  failuresEnded : p.failuresOpen = false ↔ Signal.failuresEnded ∈ heard

theorem prints_fresh : fresh.Prints keep [] := by
  constructor <;> simp [fresh]

variable {keep}

theorem eventsOpen_take_event (p : Printer) (e : Event) :
    (p.take keep (.event e)).eventsOpen = p.eventsOpen := by
  simp only [take]
  split <;> rfl

theorem failuresOpen_take_event (p : Printer) (e : Event) :
    (p.take keep (.event e)).failuresOpen = p.failuresOpen := by
  simp only [take]
  split <;> rfl

/-- Nothing is heard of the events where something else comes. -/
theorem events_concat_of_none {heard : List Signal} {s : Signal} (other : s.event? = none) :
    (heard ++ [s]).filterMap Signal.event? = heard.filterMap Signal.event? := by
  simp [other]

theorem Prints.take {heard : List Signal} {p : Printer} (prints : p.Prints keep heard) (s : Signal) :
    (p.take keep s).Prints keep (heard ++ [s]) := by
  obtain ⟨hseen, hevents, hfailures, heventsEnded, hfailuresEnded⟩ := prints
  have hend : ∀ t : Signal, t ≠ s → (t ∈ heard ++ [s] ↔ t ∈ heard) := fun t hne => by simp [hne]
  cases s with
  | event e =>
    have hheard : (heard ++ [Signal.event e]).filterMap Signal.event?
        = heard.filterMap Signal.event? ++ [e] := by simp [Signal.event?]
    constructor
    · rw [hheard, List.filter_append]
      cases hkeep : keep e <;> simp [Printer.take, hkeep, hseen]
    · rw [hheard, List.filter_append, List.zipIdx_append, ← hevents, ← hseen]
      cases hkeep : keep e <;> simp [Printer.take, hkeep, Line.event?, Nat.add_comm]
    · cases hkeep : keep e <;>
        simp [Printer.take, hkeep, List.filterMap_cons, Line.failure?, Signal.failure?, hfailures]
    · rw [eventsOpen_take_event, hend _ (by simp), heventsEnded]
    · rw [failuresOpen_take_event, hend _ (by simp), hfailuresEnded]
  | failure f =>
    constructor
    · rw [events_concat_of_none rfl, ← hseen]
      rfl
    · rw [events_concat_of_none rfl, ← hevents]
      simp [Printer.take, List.filterMap_cons, Line.event?]
    · simp [Printer.take, Line.failure?, Signal.failure?, hfailures]
    · rw [hend _ (by simp), ← heventsEnded]
      rfl
    · rw [hend _ (by simp), ← hfailuresEnded]
      rfl
  | eventsEnded =>
    constructor
    · rw [events_concat_of_none rfl, ← hseen]
      rfl
    · rw [events_concat_of_none rfl, ← hevents]
      rfl
    · simp [Printer.take, List.filterMap_cons, Signal.failure?, hfailures]
    · simp [Printer.take]
    · rw [hend _ (by simp), ← hfailuresEnded]
      rfl
  | failuresEnded =>
    constructor
    · rw [events_concat_of_none rfl, ← hseen]
      rfl
    · rw [events_concat_of_none rfl, ← hevents]
      rfl
    · simp [Printer.take, List.filterMap_cons, Signal.failure?, hfailures]
    · rw [hend _ (by simp), ← heventsEnded]
      rfl
    · simp [Printer.take]

/-- A printer that is not done takes what comes next, and one that is done stays as it is. -/
theorem run_append (p : Printer) (heard more : List Signal) :
    p.run keep (heard ++ more) = (p.run keep heard).run keep more := by
  induction heard generalizing p with
  | nil => rfl
  | cons s rest ih =>
    rw [List.cons_append, run, run]
    split
    · rename_i hdone
      cases more with
      | nil => rfl
      | cons t more => rw [run, if_pos hdone]
    · exact ih _

theorem run_of_isDone {p : Printer} (done : p.isDone = true) (more : List Signal) :
    p.run keep more = p := by
  cases more with
  | nil => rfl
  | cons s more => rw [run, if_pos done]

theorem run_concat {p : Printer} {heard : List Signal} (s : Signal)
    (working : (p.run keep heard).isDone = false) :
    p.run keep (heard ++ [s]) = (p.run keep heard).take keep s := by
  rw [run_append, run, working]
  rfl

theorem isDone_iff {p : Printer} :
    p.isDone = true ↔ p.eventsOpen = false ∧ p.failuresOpen = false := by
  unfold isDone
  rw [Bool.and_eq_true, Bool.not_eq_true', Bool.not_eq_true']

end Printer

/-! ## Schedules -/

/-- The printer and its two streams. -/
structure Printing where
  events : Feed Event
  failures : Feed Failure
  printer : Printer
  /-- What the printer has taken, oldest first. -/
  heard : List Signal

/-- Who does something next. -/
inductive Printing.Turn where
  /-- The sender of events sends one, or hangs up. -/
  | eventsGoOn
  | failuresGoOn
  /-- The printer takes what is ready of the events. -/
  | eventsTaken
  | failuresTaken
deriving DecidableEq, Repr

namespace Printing

/-- Streams of which nothing was sent, and a printer at its start. -/
def start (es : List Event) (fs : List Failure) : Printing :=
  ⟨.ofList es, .ofList fs, .fresh, []⟩

variable (keep : Event → Bool)

/-- Somebody does something, if that can be done.  The printer does not listen any more to a stream of
which it has taken the end. -/
def fire (s : Printing) : Turn → Option Printing
  | .eventsGoOn => s.events.advance.map fun f => { s with events := f }
  | .failuresGoOn => s.failures.advance.map fun f => { s with failures := f }
  | .eventsTaken =>
    if s.printer.eventsOpen then
      s.events.ready?.map fun (x, f) =>
        ⟨f, s.failures, s.printer.take keep (.ofEvents x), s.heard ++ [.ofEvents x]⟩
    else none
  | .failuresTaken =>
    if s.printer.failuresOpen then
      s.failures.ready?.map fun (x, f) =>
        ⟨s.events, f, s.printer.take keep (.ofFailures x), s.heard ++ [.ofFailures x]⟩
    else none

/-- A schedule, from its first turn to its last one. -/
def run (s : Printing) (turns : List Turn) : Option Printing := turns.foldlM (fire keep) s

/-- How much is left to do. -/
def left (s : Printing) : Nat :=
  s.events.left s.printer.eventsOpen + s.failures.left s.printer.failuresOpen

/-- The printer has gone on as its loop does, and what it has heard is what was sent and taken. -/
structure Tracks (es : List Event) (fs : List Failure) (s : Printing) : Prop where
  printer : s.printer = Printer.run keep .fresh s.heard
  prints : s.printer.Prints keep s.heard
  events : s.events.Carries es (s.heard.filterMap Signal.event?) s.printer.eventsOpen
  failures : s.failures.Carries fs (s.heard.filterMap Signal.failure?) s.printer.failuresOpen

theorem tracks_start (es : List Event) (fs : List Failure) : (start es fs).Tracks keep es fs :=
  ⟨rfl, Printer.prints_fresh keep, Feed.carries_ofList es, Feed.carries_ofList fs⟩

variable {keep} {es : List Event} {fs : List Failure} {s s' : Printing}

/-- The printer takes a signal, and the streams are as they are after that. -/
theorem Tracks.hear (tracks : s.Tracks keep es fs) (signal : Signal)
    (working : s.printer.isDone = false) {f : Feed Event} {g : Feed Failure}
    (events : f.Carries es ((s.heard ++ [signal]).filterMap Signal.event?)
      (s.printer.take keep signal).eventsOpen)
    (failures : g.Carries fs ((s.heard ++ [signal]).filterMap Signal.failure?)
      (s.printer.take keep signal).failuresOpen) :
    Tracks keep es fs ⟨f, g, s.printer.take keep signal, s.heard ++ [signal]⟩ := by
  refine ⟨?_, tracks.prints.take signal, events, failures⟩
  rw [tracks.printer] at working
  rw [Printer.run_concat signal working, ← tracks.printer]

/-- **One turn**: what is told of the streams and of the printer stays true, and there is one turn less
to come. -/
theorem Tracks.of_fire (tracks : s.Tracks keep es fs) {t : Turn} (h : s.fire keep t = some s') :
    s'.Tracks keep es fs ∧ s'.left + 1 = s.left := by
  have hevents := tracks.events
  have hfailures := tracks.failures
  cases t with
  | eventsGoOn =>
    obtain ⟨f, hf, rfl⟩ := Option.map_eq_some_iff.mp h
    obtain ⟨hcarries, hleft⟩ := hevents.advance hf
    refine ⟨⟨tracks.printer, tracks.prints, hcarries, hfailures⟩, ?_⟩
    simp only [left]
    omega
  | failuresGoOn =>
    obtain ⟨f, hf, rfl⟩ := Option.map_eq_some_iff.mp h
    obtain ⟨hcarries, hleft⟩ := hfailures.advance hf
    refine ⟨⟨tracks.printer, tracks.prints, hevents, hcarries⟩, ?_⟩
    simp only [left]
    omega
  | eventsTaken =>
    simp only [fire, Option.ite_none_right_eq_some] at h
    obtain ⟨hopen, hready⟩ := h
    obtain ⟨⟨x, f⟩, hf, rfl⟩ := Option.map_eq_some_iff.mp hready
    have hworking : s.printer.isDone = false := by simp [Printer.isDone, hopen]
    rw [hopen] at hevents
    cases x with
    | some e =>
      obtain ⟨hcarries, hleft⟩ := hevents.item hf
      refine ⟨tracks.hear (.event e) hworking ?_ ?_, ?_⟩
      · rw [Printer.eventsOpen_take_event, hopen]
        simpa [List.filterMap_cons, Signal.event?] using hcarries
      · rw [Printer.failuresOpen_take_event]
        simpa [List.filterMap_cons, Signal.failure?] using hfailures
      · simp only [left, Signal.ofEvents, Printer.eventsOpen_take_event,
          Printer.failuresOpen_take_event, hopen]
        omega
    | none =>
      obtain ⟨hcarries, hleft⟩ := hevents.ended hf
      refine ⟨tracks.hear .eventsEnded hworking ?_ ?_, ?_⟩
      · simpa [List.filterMap_cons, Signal.event?, Printer.take] using hcarries
      · simpa [List.filterMap_cons, Signal.failure?, Printer.take] using hfailures
      · simp only [left, Signal.ofEvents, Printer.take, hopen]
        omega
  | failuresTaken =>
    simp only [fire, Option.ite_none_right_eq_some] at h
    obtain ⟨hopen, hready⟩ := h
    obtain ⟨⟨x, f⟩, hf, rfl⟩ := Option.map_eq_some_iff.mp hready
    have hworking : s.printer.isDone = false := by simp [Printer.isDone, hopen]
    rw [hopen] at hfailures
    cases x with
    | some e =>
      obtain ⟨hcarries, hleft⟩ := hfailures.item hf
      refine ⟨tracks.hear (.failure e) hworking ?_ ?_, ?_⟩
      · simpa [List.filterMap_cons, Signal.event?, Printer.take] using hevents
      · simpa [List.filterMap_cons, Signal.failure?, Printer.take, hopen] using hcarries
      · simp only [left, Signal.ofFailures, Printer.take, hopen]
        omega
    | none =>
      obtain ⟨hcarries, hleft⟩ := hfailures.ended hf
      refine ⟨tracks.hear .failuresEnded hworking ?_ ?_, ?_⟩
      · simpa [List.filterMap_cons, Signal.event?, Printer.take] using hevents
      · simpa [List.filterMap_cons, Signal.failure?, Printer.take] using hcarries
      · simp only [left, Signal.ofFailures, Printer.take, hopen]
        omega

/-- **Any schedule.** -/
theorem Tracks.of_run (tracks : s.Tracks keep es fs) {turns : List Turn}
    (h : s.run keep turns = some s') :
    s'.Tracks keep es fs ∧ s'.left + turns.length = s.left := by
  induction turns generalizing s with
  | nil =>
    cases h
    exact ⟨tracks, rfl⟩
  | cons t turns ih =>
    obtain ⟨u, hu, hrest⟩ := Option.bind_eq_some_iff.mp h
    obtain ⟨htracks, hleft⟩ := tracks.of_fire hu
    obtain ⟨hlast, hall⟩ := ih htracks hrest
    refine ⟨hlast, ?_⟩
    rw [List.length_cons]
    omega

/-- The printer has heard the end of both streams exactly when nobody has anything left to do. -/
theorem Tracks.isDone_iff_stuck (tracks : s.Tracks keep es fs) :
    s.printer.isDone = true ↔ ∀ t, s.fire keep t = none := by
  rw [Printer.isDone_iff]
  constructor
  · rintro ⟨heventsEnded, hfailuresEnded⟩ t
    have hevents := heventsEnded ▸ tracks.events
    have hfailures := hfailuresEnded ▸ tracks.failures
    cases t with
    | eventsGoOn => simp [fire, hevents.advance_eq_none]
    | failuresGoOn => simp [fire, hfailures.advance_eq_none]
    | eventsTaken => simp [fire, heventsEnded]
    | failuresTaken => simp [fire, hfailuresEnded]
  · intro stuck
    constructor
    · by_contra hopen
      rw [Bool.not_eq_false] at hopen
      rcases s.events.exists_advance_or_ready with ⟨f, hf⟩ | ⟨x, hx⟩
      · simpa [fire, hf] using stuck .eventsGoOn
      · simpa [fire, hopen, hx] using stuck .eventsTaken
    · by_contra hopen
      rw [Bool.not_eq_false] at hopen
      rcases s.failures.exists_advance_or_ready with ⟨f, hf⟩ | ⟨x, hx⟩
      · simpa [fire, hf] using stuck .failuresGoOn
      · simpa [fire, hopen, hx] using stuck .failuresTaken

/-- A printer that is done has printed all of both streams. -/
theorem Tracks.lines_of_isDone (tracks : s.Tracks keep es fs) (done : s.printer.isDone = true) :
    s.printer.seen = (es.filter keep).length ∧
      s.printer.lines.filterMap Line.event? = (es.filter keep).zipIdx 1 ∧
      s.printer.lines.filterMap Line.failure? = fs := by
  obtain ⟨heventsEnded, hfailuresEnded⟩ := Printer.isDone_iff.mp done
  have hevents := (heventsEnded ▸ tracks.events).taken_eq
  have hfailures := (hfailuresEnded ▸ tracks.failures).taken_eq
  refine ⟨?_, ?_, ?_⟩
  · rw [tracks.prints.seen, hevents]
  · rw [tracks.prints.events, hevents]
  · rw [tracks.prints.failures, hfailures]

/-- **Both streams are printed to their ends, whatever the schedule.**  The printer is where its loop
is after what it has heard.  It is done exactly when it has heard the end of both streams, which is when
nobody has anything left to do; and no schedule is longer than two turns for each item and each end.
What has been printed so far is a beginning of what will be, and what a printer that is done has printed
depends on the streams only: of the events those that are wanted, numbered from one, and all
failures. -/
theorem prints_both_streams {turns : List Turn} (h : (start es fs).run keep turns = some s) :
    s.printer = Printer.run keep .fresh s.heard ∧
      (s.printer.isDone = true ↔
        Signal.eventsEnded ∈ s.heard ∧ Signal.failuresEnded ∈ s.heard) ∧
      (s.printer.isDone = true ↔ ∀ t, s.fire keep t = none) ∧
      turns.length ≤ 2 * (es.length + fs.length + 2) ∧
      s.printer.seen = (s.printer.lines.filterMap Line.event?).length ∧
      s.printer.lines.filterMap Line.event? <+: (es.filter keep).zipIdx 1 ∧
      s.printer.lines.filterMap Line.failure? <+: fs ∧
      (s.printer.isDone = true →
        (∀ more, Printer.run keep .fresh (s.heard ++ more) = s.printer) ∧
          s.printer.lines.filterMap Line.event? = (es.filter keep).zipIdx 1 ∧
          s.printer.lines.filterMap Line.failure? = fs ∧
          s.printer.seen = (es.filter keep).length) := by
  obtain ⟨tracks, hleft⟩ := (tracks_start keep es fs).of_run h
  have hprints := tracks.prints
  refine ⟨tracks.printer, ?_, tracks.isDone_iff_stuck, ?_, ?_, ?_, ?_, ?_⟩
  · rw [Printer.isDone_iff, hprints.eventsEnded, hprints.failuresEnded]
  · have hstart : (start es fs).left = 2 * (es.length + fs.length + 2) := by
      simp only [left, Feed.left, start, Feed.ofList, Printer.fresh, List.length_nil, Bool.not_false,
        Bool.toNat_true]
      omega
    omega
  · rw [hprints.seen, hprints.events, List.length_zipIdx]
  · rw [hprints.events, tracks.events.items_eq, List.append_assoc, List.filter_append,
      List.zipIdx_append]
    exact List.prefix_append _ _
  · rw [hprints.failures, tracks.failures.items_eq, List.append_assoc]
    exact List.prefix_append _ _
  · intro done
    obtain ⟨hseen, hevents, hfailures⟩ := tracks.lines_of_isDone done
    refine ⟨fun more => ?_, hevents, hfailures, hseen⟩
    rw [Printer.run_append, ← tracks.printer, Printer.run_of_isDone done]

/-- Something was written to a file of one letter. -/
def written (letter : UInt8) : Event := ⟨⟨[letter]⟩, .write⟩

/-- The stream of failures ends at once.  Of the three events the printer takes one before the other two
are sent, and the one in the middle is not wanted. -/
theorem prints_both_streams_lopsided : ∃ s : Printing,
    (start [written 0x61, written 0x62, written 0x63] []).run (fun e => e.path.bytes != [0x62])
      [.failuresGoOn, .eventsGoOn, .failuresTaken, .eventsTaken, .eventsGoOn, .eventsGoOn, .eventsTaken,
        .eventsGoOn, .eventsTaken, .eventsTaken] = some s ∧
      s.printer.isDone = true ∧ s.printer.seen = 2 ∧
      s.printer.lines.filterMap Line.event? = [(written 0x61, 1), (written 0x63, 2)] := by
  obtain ⟨s, hs, hheard⟩ : ∃ s : Printing,
      (start [written 0x61, written 0x62, written 0x63] []).run (fun e => e.path.bytes != [0x62])
        [.failuresGoOn, .eventsGoOn, .failuresTaken, .eventsTaken, .eventsGoOn, .eventsGoOn,
          .eventsTaken, .eventsGoOn, .eventsTaken, .eventsTaken] = some s ∧
        Signal.eventsEnded ∈ s.heard ∧ Signal.failuresEnded ∈ s.heard :=
    ⟨_, rfl, by decide, by decide⟩
  obtain ⟨-, hdone, -, -, -, -, -, hall⟩ := prints_both_streams hs
  have done := hdone.mpr hheard
  obtain ⟨-, hevents, -, hseen⟩ := hall done
  exact ⟨s, hs, done, hseen.trans (by decide), hevents.trans (by decide)⟩

end Printing

end FileWatch
