import FileWatch.Debounce.Worker
import FileWatch.Proofs.Debounce.Pending

/-!
# The history of a worker

What a worker is given comes in three kinds: the clock is looked at, an event comes in, or the input
has ended.  `Worker.run` is one way of mixing them, with one look at the clock before each event; a
worker that wakes up on its own looks more often.  Here any mixture is allowed, and the statements
about debouncing hold of all of them; `run_eq_serveAll` says which mixture a run is.

While anybody listens, what a step does is settled by the bursts in progress and by the input alone:
it completes some paths (`completes`), then it passes something on (`forwarded`), and it leaves some
bursts (`leaves`).  Only the first and the last look at what is pending.  `serve_eq` is the one
place where the code of the steps is opened.
-/

namespace FileWatch

theorem Ops.contains_of_contains_diff {a b c : Ops} (h : (a \ b).contains c = true) :
    a.contains c = true := by
  have hdiff : (a.bits &&& ~~~b.bits) &&& c.bits = c.bits := eq_of_beq h
  have hc : a.bits &&& c.bits = c.bits := by
    calc a.bits &&& c.bits = a.bits &&& ((a.bits &&& ~~~b.bits) &&& c.bits) := by rw [hdiff]
      _ = (a.bits &&& ~~~b.bits) &&& c.bits := by
        rw [← UInt32.and_assoc, ← UInt32.and_assoc, UInt32.and_self]
      _ = c.bits := hdiff
  exact beq_iff_eq.mpr hc

namespace Event

/-- An event that begins or prolongs a burst of writes. -/
def isArming (e : Event) : Bool :=
  e.has .write && !e.has .closeWrite && !e.ops.intersects (.remove ∪ .rename)

/-- An event that ends a burst of writes because the path goes away. -/
def isDeparture (e : Event) : Bool := e.ops.intersects (.remove ∪ .rename) && !e.has .closeWrite

def completionOf (p : Path) : Event := ⟨p, .closeWrite⟩

theorem completionOf_has (p : Path) : (completionOf p).has .closeWrite = true :=
  show Ops.closeWrite.contains .closeWrite = true by decide

theorem not_has_closeWrite_of_isArming {e : Event} (h : e.isArming = true) :
    e.has .closeWrite = false := by
  unfold isArming at h
  cases hclose : e.has .closeWrite with
  | false => rfl
  | true => simp [hclose] at h

theorem not_isDeparture_of_isArming {e : Event} (h : e.isArming = true) :
    e.isDeparture = false := by
  unfold isArming at h
  unfold isDeparture
  cases hgone : e.ops.intersects (.remove ∪ .rename) with
  | false => rfl
  | true => simp [hgone] at h

theorem not_isArming_of_isDeparture {e : Event} (h : e.isDeparture = true) :
    e.isArming = false := by
  cases harming : e.isArming with
  | false => rfl
  | true =>
    rw [not_isDeparture_of_isArming harming] at h
    cases h

end Event

namespace Worker

/-- What a worker is given. -/
inductive Input where
  /-- A look at the clock. -/
  | check (now : Instant)
  /-- An event, and when it is handled. -/
  | event (now : Instant) (e : Event)
  /-- Nothing more will come. -/
  | ended
deriving DecidableEq, Repr

namespace Input

/-- What is passed on of an input: of an event that only prolongs a burst whatever it says besides,
every other event as it is. -/
def forwarded : Input → List Event
  | .event _ e =>
    if e.isArming then
      if (e.ops \ .write).isEmpty then [] else [⟨e.path, e.ops \ .write⟩]
    else [e]
  | _ => []

/-- The paths that an input completes. -/
def completes (d : Pending) : Input → List Path
  | .check now => (d.takeExpired now).1
  | .event _ e => if e.isDeparture && (d.cancel e.path).1 then [e.path] else []
  | .ended => d.drain.1

/-- The bursts that are in progress after an input. -/
def leaves (quiet : Duration) (d : Pending) : Input → Pending
  | .check now => (d.takeExpired now).2
  | .event now e =>
    if e.isArming then d.arm e.path (now + quiet.nanos)
    else if e.has .closeWrite || e.isDeparture then (d.cancel e.path).2
    else d
  | .ended => d.drain.2

end Input

/-- One step; whether anybody listens. -/
def serve (w : Worker) : Input → Bool × Worker
  | .check now => w.fireExpired now
  | .event now e => w.handle now e
  | .ended => w.flush

/-- Steps until nobody listens. -/
def serveAll (w : Worker) : List Input → Worker
  | [] => w
  | i :: rest =>
    let (go, w') := w.serve i
    if go then serveAll w' rest else w'

/-- One step as it is seen from outside. -/
structure Step where
  input : Input
  /-- What was sent during the step, in that order. -/
  sent : List Event
deriving DecidableEq, Repr

/-- The steps of a worker until nobody listens. -/
def history (w : Worker) : List Input → List Step
  | [] => []
  | i :: rest =>
    let (go, w') := w.serve i
    ⟨i, w'.output.sent.drop w.output.sent.length⟩ :: if go then history w' rest else []

/-! ## A run is a mixture of inputs -/

/-- The inputs of a run: a look at the clock before each event and before the end. -/
def inputsOf (es : List (Instant × Event)) (now : Instant) : List Input :=
  es.flatMap (fun te => [.check te.1, .event te.1 te.2]) ++ [.check now, .ended]

theorem serveAll_cons (w : Worker) (i : Input) (is : List Input) :
    w.serveAll (i :: is)
      = if (w.serve i).1 then (w.serve i).2.serveAll is else (w.serve i).2 := rfl

theorem run_eq_serveAll (w : Worker) (es : List (Instant × Event)) (now : Instant) :
    w.run es now = w.serveAll (inputsOf es now) := by
  induction es generalizing w with
  | nil =>
    rw [run, show inputsOf [] now = [.check now, .ended] from rfl, serveAll_cons, finish,
      show w.serve (.check now) = w.fireExpired now from rfl]
    obtain ⟨go, w'⟩ := w.fireExpired now
    cases go with
    | false => rfl
    | true => exact (ite_self _).symm
  | cons te rest ih =>
    rw [run, show inputsOf (te :: rest) now
        = .check te.1 :: .event te.1 te.2 :: inputsOf rest now from rfl,
      serveAll_cons, turn, show w.serve (.check te.1) = w.fireExpired te.1 from rfl]
    obtain ⟨go, w'⟩ := w.fireExpired te.1
    cases go with
    | false => rfl
    | true =>
      simp only [if_true]
      rw [serveAll_cons, ← ih]
      rfl

/-! ## One step while anybody listens -/

/-- A worker with other bursts in progress that has sent some more events. -/
def after (w : Worker) (d : Pending) (es : List Event) : Worker :=
  { w with pending := d, output := { w.output with sent := w.output.sent ++ es } }

variable {w : Worker}

theorem send_eq (live : w.output.listening = true) (e : Event) :
    w.send e = (true, w.after w.pending [e]) := by
  unfold send Outlet.send
  simp [live, after]

theorem after_after (d d' : Pending) (es es' : List Event) :
    (w.after d es).after d' es' = w.after d' (es ++ es') := by
  simp [after]

theorem complete_eq (live : w.output.listening = true) (ps : List Path) :
    w.complete ps = (true, w.after w.pending (ps.map .completionOf)) := by
  induction ps generalizing w with
  | nil => simp [complete, after]
  | cons p rest ih =>
    have hsend := send_eq live ⟨p, .closeWrite⟩
    unfold complete
    rw [hsend]
    simp only [if_true]
    rw [ih (by exact live), after_after]
    rfl

theorem handle_eq (live : w.output.listening = true) (now : Instant) (e : Event) :
    w.handle now e = (true, w.after ((Input.event now e).leaves w.quiet w.pending)
      (((Input.event now e).completes w.pending).map .completionOf
        ++ (Input.event now e).forwarded)) := by
  unfold handle Input.leaves Input.completes Input.forwarded Event.isArming Event.isDeparture
  -- One case for each way out of `handle`, in the order of its checks.
  cases hclose : e.has .closeWrite with
  | true =>
    simp [hclose, send_eq, live, after]
  | false =>
    cases hgone : e.ops.intersects (.remove ∪ .rename) with
    | true =>
      cases hopen : (w.pending.cancel e.path).1 <;>
        simp [hclose, hgone, hopen, send_eq, live, after, Event.completionOf]
    | false =>
      cases hwrite : e.has .write with
      | false => simp [hclose, hgone, hwrite, send_eq, live, after]
      | true =>
        cases hrest : (e.ops \ .write).isEmpty with
        | true => simp [hclose, hgone, hwrite, hrest, after]
        | false => simp [hclose, hgone, hwrite, hrest, send_eq, live, after]

/-- **One step.**  It goes on, and what it does is what the definitions above say. -/
theorem serve_eq (live : w.output.listening = true) (i : Input) :
    w.serve i = (true, w.after (i.leaves w.quiet w.pending)
      ((i.completes w.pending).map .completionOf ++ i.forwarded)) := by
  cases i with
  | check now =>
    unfold serve fireExpired
    simp [complete_eq, live, after, Input.leaves, Input.completes, Input.forwarded]
  | event now e => exact handle_eq live now e
  | ended =>
    unfold serve flush
    simp [complete_eq, live, after, Input.leaves, Input.completes, Input.forwarded]

/-- The worker after one step that somebody listened to. -/
def next (w : Worker) (i : Input) : Worker := (w.serve i).2

theorem next_eq (live : w.output.listening = true) (i : Input) :
    w.next i = w.after (i.leaves w.quiet w.pending)
      ((i.completes w.pending).map .completionOf ++ i.forwarded) := by
  rw [next, serve_eq live]

/-- The step that an input makes, while anybody listens. -/
def stepAt (w : Worker) (i : Input) : Step :=
  ⟨i, (i.completes w.pending).map .completionOf ++ i.forwarded⟩

theorem stepAt_of_forwarded_nil (w : Worker) {i : Input} (h : i.forwarded = []) :
    w.stepAt i = ⟨i, (i.completes w.pending).map .completionOf⟩ := by
  rw [stepAt, h, List.append_nil]

theorem history_cons (live : w.output.listening = true) (i : Input) (is : List Input) :
    w.history (i :: is) = w.stepAt i :: (w.next i).history is := by
  rw [next_eq live, history, serve_eq live]
  simp [after, stepAt]

/-! ## Histories while anybody listens -/

theorem next_live (live : w.output.listening = true) (i : Input) :
    (w.next i).output.listening = true := by
  rw [next_eq live]
  exact live

theorem next_quiet (live : w.output.listening = true) (i : Input) : (w.next i).quiet = w.quiet := by
  rw [next_eq live]
  rfl

theorem history_inputs (live : w.output.listening = true) (is : List Input) :
    (w.history is).map (·.input) = is := by
  induction is generalizing w with
  | nil => rfl
  | cons i rest ih =>
    rw [history_cons live, List.map_cons, ih (next_live live i)]
    rfl

theorem serveAll_next (live : w.output.listening = true) (i : Input) (is : List Input) :
    w.serveAll (i :: is) = (w.next i).serveAll is := by
  rw [serveAll_cons, next, serve_eq live]
  rfl

theorem serveAll_sent (live : w.output.listening = true) (is : List Input) :
    (w.serveAll is).output.sent = w.output.sent ++ (w.history is).flatMap (·.sent) := by
  induction is generalizing w with
  | nil => exact (List.append_nil _).symm
  | cons i rest ih =>
    rw [serveAll_next live, ih (next_live live i), history_cons live, List.flatMap_cons,
      ← List.append_assoc, next_eq live]
    rfl

/-- **A run sends its history.** -/
theorem run_sent (live : w.output.listening = true) (es : List (Instant × Event)) (now : Instant) :
    (w.run es now).output.sent
      = w.output.sent ++ (w.history (inputsOf es now)).flatMap (·.sent) := by
  rw [run_eq_serveAll, serveAll_sent live]

end Worker

end FileWatch
