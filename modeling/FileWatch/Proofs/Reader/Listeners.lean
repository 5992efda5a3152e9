import Mathlib
import FileWatch.Proofs.Dict
import FileWatch.Proofs.Reader.Dispatch
import FileWatch.Proofs.Reader.Reads

/-!
# Nobody has to listen

The receivers of events and of errors may go away while the reader works, each for itself and at any
moment, also between two things that one record gives rise to.  To speak of any moment, the work is cut
where something is handed over.  A record hands over two things at most, one in each half (`opened`,
`concluded`), and a `Desk` is a reader with what it has read and the record of which one half is done.
It does what the reader does (`run_turn`).

Two runs are compared: in one of them some receivers go away, in the other one they stay, and all else
that happens is the same.  `Alike` relates the two.  Everything is equal but the streams that have lost
their receivers, and nothing that the reader does looks at those.
-/

namespace FileWatch

/-! ## The two halves of a record -/

namespace Reader

/-- The first half of a record: what it says about the queue or about its watch.  The record is returned
if there is a second half. -/
def opened (r : Reader) (rec : Record) : (Bool × Reader) × Option Record :=
  if rec.mask.has Mask.queueOverflow then (r.report .overflow, none)
  else if rec.mask.has Mask.ignored then
    ((true, { r with table := (r.table.purge rec.handle).2 }), none)
  else
    (if rec.mask.has Mask.moveSelf && rec.name.isNone then r.drop rec.handle else (true, r), some rec)

/-- The second half: what it says about a path. -/
def concluded (pathExists : Path → Bool) (r : Reader) (rec : Record) : Bool × Reader :=
  if rec.mask.has Mask.deleteSelf && r.table.parentReportsDelete rec.handle then (true, r)
  else r.announce pathExists rec

variable (pathExists : Path → Bool) (r : Reader) (rec : Record)

theorem dispatch_eq_halves : r.dispatch pathExists rec =
    match r.opened rec with
    | ((false, q), _) => (false, q)
    | ((true, q), none) => (true, q)
    | ((true, q), some rec) => q.concluded pathExists rec := by
  unfold dispatch opened
  split
  · cases r.report .overflow with
    | mk go q => cases go <;> rfl
  split
  · rfl
  · generalize (if rec.mask.has Mask.moveSelf && rec.name.isNone then r.drop rec.handle
      else (true, r)) = x
    obtain ⟨go, q⟩ := x
    cases go <;> rfl

theorem report_of_unclosed {r : Reader} (unclosed : r.closing = false) (f : Failure) :
    r.report f = (true, { r with errors := r.errors.send f }) := by
  rw [report, unclosed]
  rfl

theorem deliver_of_unclosed {r : Reader} (unclosed : r.closing = false) (e : Event) :
    r.deliver e = (true, { r with events := r.events.send e }) := by
  rw [deliver, unclosed]
  rfl

theorem handled_opened : r.Handled (r.opened rec).1 := by
  unfold opened
  split
  · exact r.handled_report nofun
  split
  · exact ⟨rfl, rfl, fun _ => rfl, [], (List.append_nil _).symm, nofun⟩
  · show r.Handled (if _ then r.drop rec.handle else (true, r))
    split
    · exact r.handled_drop rec.handle
    · exact .refl r

theorem handled_concluded : r.Handled (r.concluded pathExists rec) := by
  unfold concluded
  split
  · exact .refl r
  · exact r.handled_announce pathExists rec

end Reader

/-! ## A reader at work -/

/-- A reader, what it has read and not taken up, and the record of which one half is done. -/
structure Desk where
  reader : Reader
  batch : List (Except Malformation Record)
  current : Option Record

/-- What can happen to a reader that nobody closes. -/
inductive Occurrence where
  /-- The reader goes on with its work; which paths exist may be another matter each time. -/
  | work (pathExists : Path → Bool)
  | read (bytes : Bytes)
  /-- The reader's wait fails, or its read. -/
  | fault (failure : Failure)
  /-- A caller does something to the table. -/
  | called (change : WatchTable → WatchTable)
  /-- The receiver of events goes away. -/
  | eventsLeft
  /-- The receiver of errors goes away. -/
  | errorsLeft

/-- Whether no receiver goes away. -/
def Occurrence.stays : Occurrence → Bool
  | .eventsLeft => false
  | .errorsLeft => false
  | _ => true

namespace Desk

/-- Nothing of a read is left to do. -/
def isIdle (d : Desk) : Bool := d.batch.isEmpty && d.current.isNone

/-- The reader has done something, and goes on with the rest or ends. -/
def onward (x : Bool × Reader) (batch : List (Except Malformation Record)) (current : Option Record) :
    Desk :=
  if x.1 then ⟨x.2, batch, current⟩ else ⟨x.2.stop, [], none⟩

/-- One half of a record, or the error that ends a read. -/
def work (pathExists : Path → Bool) (d : Desk) : Desk :=
  match d.current, d.batch with
  | some rec, batch => onward (d.reader.concluded pathExists rec) batch none
  | none, .ok rec :: rest => onward (d.reader.opened rec).1 rest (d.reader.opened rec).2
  | none, .error m :: _ => onward (d.reader.report (.malformed m)) [] none
  | none, [] => d

def occur (d : Desk) : Occurrence → Desk
  | .work pathExists => if d.reader.running then d.work pathExists else d
  | .read bytes =>
    if d.reader.running && d.isIdle then { d with batch := Reader.itemsOf bytes } else d
  | .fault f =>
    if d.reader.running && d.isIdle then
      onward ((d.reader.report f).1 && !f.isBadDescriptor, (d.reader.report f).2) [] none
    else d
  | .called change => { d with reader := { d.reader with table := change d.reader.table } }
  | .eventsLeft => { d with reader := { d.reader with events := d.reader.events.abandoned } }
  | .errorsLeft => { d with reader := { d.reader with errors := d.reader.errors.abandoned } }

def run (d : Desk) (os : List Occurrence) : Desk := os.foldl occur d

/-! ## It does what a reader does -/

section Turn

variable (pathExists : Path → Bool) {r : Reader}

theorem onward_of_handled {x : Bool × Reader} (unclosed : r.closing = false) (h : r.Handled x)
    (batch : List (Except Malformation Record)) (current : Option Record) :
    onward x batch current = ⟨x.2, batch, current⟩ := by
  rw [onward, h.goes unclosed, if_pos rfl]

theorem run_replicate_of_idle (r : Reader) (n : Nat) :
    ( ⟨r, [], none⟩ : Desk).run (List.replicate n (.work pathExists)) = ⟨r, [], none⟩ := by
  induction n with
  | zero => rfl
  | succ n ih =>
    rw [List.replicate_succ, run, List.foldl_cons]
    have hsame : ( ⟨r, [], none⟩ : Desk).occur (.work pathExists) = ⟨r, [], none⟩ := ite_self _
    rw [hsame]
    exact ih

/-- The items of a read, two steps for each at most. -/
theorem run_items (unclosed : r.closing = false) (running : r.running = true)
    (items : List (Except Malformation Record)) {n : Nat} (hn : 2 * items.length ≤ n) :
    ( ⟨r, items, none⟩ : Desk).run (List.replicate n (.work pathExists))
        = ⟨(r.dispatchAll pathExists items).2, [], none⟩ ∧
      (r.dispatchAll pathExists items).1 = true := by
  induction items generalizing r n with
  | nil => exact ⟨run_replicate_of_idle pathExists r n, rfl⟩
  | cons item rest ih =>
    rw [List.length_cons] at hn
    obtain ⟨n, rfl⟩ : ∃ m, n = m + 2 := ⟨n - 2, by omega⟩
    have hwork {q : Reader} (hq : q.running = true) (batch : List (Except Malformation Record))
        (current : Option Record) : ( ⟨q, batch, current⟩ : Desk).occur (.work pathExists)
          = ( ⟨q, batch, current⟩ : Desk).work pathExists := if_pos hq
    rw [List.replicate_succ, run, List.foldl_cons, hwork running, work]
    cases item with
    | error m =>
      have hreport := Reader.report_of_unclosed unclosed (.malformed m)
      simp only [hreport, Reader.dispatchAll, onward, if_true]
      exact ⟨run_replicate_of_idle pathExists _ (n + 1), trivial⟩
    | ok rec =>
      have hopened := r.handled_opened rec
      have hhalves := r.dispatch_eq_halves pathExists rec
      have hgoes := hopened.goes unclosed
      simp only [onward_of_handled unclosed hopened, Reader.dispatchAll, hhalves]
      generalize r.opened rec = x at *
      obtain ⟨⟨go, q⟩, more⟩ := x
      cases hgoes
      have hunclosed : q.closing = false := hopened.closing.trans unclosed
      have hrunning : q.running = true := hopened.running.trans running
      cases more with
      | none => exact ih hunclosed hrunning (by omega)
      | some rec =>
        have hconcluded := q.handled_concluded pathExists rec
        rw [List.replicate_succ, List.foldl_cons, hwork hrunning, work]
        simp only [onward_of_handled hunclosed hconcluded, hconcluded.goes hunclosed, if_true]
        exact ih (hconcluded.closing.trans hunclosed) (hconcluded.running.trans hrunning) (by omega)

/-- **A read and enough steps are a turn of the reader.** -/
theorem run_turn (unclosed : r.closing = false) (running : r.running = true) (bytes : Bytes) {n : Nat}
    (hn : 2 * (Reader.itemsOf bytes).length ≤ n) :
    ( ⟨r, [], none⟩ : Desk).run (.read bytes :: List.replicate n (.work pathExists))
      = ⟨r.turn pathExists bytes, [], none⟩ := by
  obtain ⟨hrun, hgoes⟩ := run_items pathExists unclosed running (Reader.itemsOf bytes) hn
  have hread : ( ⟨r, [], none⟩ : Desk).occur (.read bytes) = ⟨r, Reader.itemsOf bytes, none⟩ :=
    if_pos (by rw [running]; rfl)
  have hturn : r.turn pathExists bytes = (r.dispatchAll pathExists (Reader.itemsOf bytes)).2 := by
    unfold Reader.turn
    rw [Reader.read_eq]
    exact if_pos hgoes
  rw [run, List.foldl_cons, hread, ← run, hrun, hturn]

end Turn

end Desk

/-! ## Readers that differ in what nobody hears -/

namespace Reader

/-- Two readers that nobody closes are equal, but for streams that have lost their receivers. -/
structure Alike (hearsEvents hearsErrors : Prop) (a b : Reader) : Prop where
  table : a.table = b.table
  descriptorOpen : a.descriptorOpen = b.descriptorOpen
  running : a.running = b.running
  unclosed : a.closing = false
  unclosed' : b.closing = false
  drops : a.drops = b.drops
  events : hearsEvents → a.events = b.events
  errors : hearsErrors → a.errors = b.errors

namespace Alike

variable {hearsEvents hearsErrors : Prop} {a b : Reader}

/-- Two outcomes: both readers go on, and are as alike as before. -/
def Both (hearsEvents hearsErrors : Prop) (x y : Bool × Reader) : Prop :=
  x.1 = true ∧ y.1 = true ∧ Alike hearsEvents hearsErrors x.2 y.2

theorem refl {r : Reader} (unclosed : r.closing = false) : Alike hearsEvents hearsErrors r r :=
  ⟨rfl, rfl, rfl, unclosed, unclosed, rfl, fun _ => rfl, fun _ => rfl⟩

variable (h : Alike hearsEvents hearsErrors a b)

include h

theorem withTable {t u : WatchTable} (same : t = u) :
    Alike hearsEvents hearsErrors { a with table := t } { b with table := u } :=
  { h with table := same }

theorem report (f : Failure) : Both hearsEvents hearsErrors (a.report f) (b.report f) := by
  rw [report_of_unclosed h.unclosed, report_of_unclosed h.unclosed']
  exact ⟨rfl, rfl, { h with errors := fun hears => by rw [h.errors hears] }⟩

theorem deliver (e : Event) : Both hearsEvents hearsErrors (a.deliver e) (b.deliver e) := by
  rw [deliver_of_unclosed h.unclosed, deliver_of_unclosed h.unclosed']
  exact ⟨rfl, rfl, { h with events := fun hears => by rw [h.events hears] }⟩

theorem drop (g : Handle) : Both hearsEvents hearsErrors (a.drop g) (b.drop g) := by
  cases hb : b.descriptorOpen with
  | true =>
    have ha := h.descriptorOpen.trans hb
    rw [Reader.drop, Reader.drop, if_pos ha, if_pos hb]
    exact ⟨rfl, rfl, { h with drops := congrArg (· ++ [g]) h.drops }⟩
  | false =>
    have ha := h.descriptorOpen.trans hb
    rw [Reader.drop, Reader.drop, if_neg (Bool.eq_false_iff.mp ha), if_neg (Bool.eq_false_iff.mp hb)]
    exact h.report .closed

/-- The first half of a record looks at the table and at the descriptor. -/
theorem opened (rec : Record) : Both hearsEvents hearsErrors (a.opened rec).1 (b.opened rec).1 ∧
    (a.opened rec).2 = (b.opened rec).2 := by
  unfold Reader.opened
  split
  · exact ⟨h.report .overflow, rfl⟩
  split
  · exact ⟨⟨rfl, rfl, h.withTable (by rw [h.table])⟩, rfl⟩
  · refine ⟨?_, rfl⟩
    show Both _ _ (if _ then a.drop rec.handle else (true, a)) (if _ then b.drop rec.handle else (true, b))
    split
    · exact h.drop rec.handle
    · exact ⟨rfl, rfl, h⟩

/-- The second half looks at the table and at the paths. -/
theorem concluded (pathExists : Path → Bool) (rec : Record) : Both hearsEvents hearsErrors
    (a.concluded pathExists rec) (b.concluded pathExists rec) := by
  unfold Reader.concluded announce
  rw [h.table]
  split
  · exact ⟨rfl, rfl, h⟩
  split
  · exact ⟨rfl, rfl, h⟩
  split
  · exact ⟨rfl, rfl, h⟩
  · exact h.deliver _

theorem stop : Alike hearsEvents hearsErrors a.stop b.stop :=
  { h with table := rfl, descriptorOpen := rfl, running := rfl }

end Alike

end Reader

/-! ## Desks that differ in what nobody hears -/

namespace Desk

open Reader.Alike (Both)

/-- Two desks with the same work, whose readers are alike. -/
structure Alike (hearsEvents hearsErrors : Prop) (a b : Desk) : Prop where
  reader : Reader.Alike hearsEvents hearsErrors a.reader b.reader
  batch : a.batch = b.batch
  current : a.current = b.current

variable {hearsEvents hearsErrors : Prop} {a b : Desk}

theorem alike_onward {x y : Bool × Reader} (h : Both hearsEvents hearsErrors x y)
    {batch batch' : List (Except Malformation Record)} {current current' : Option Record}
    (hbatch : batch = batch') (hcurrent : current = current') :
    Alike hearsEvents hearsErrors (onward x batch current) (onward y batch' current') := by
  obtain ⟨hx, hy, halike⟩ := h
  rw [onward, onward, hx, hy]
  exact ⟨halike, hbatch, hcurrent⟩

theorem Alike.work (h : Alike hearsEvents hearsErrors a b) (pathExists : Path → Bool) :
    Alike hearsEvents hearsErrors (a.work pathExists) (b.work pathExists) := by
  obtain ⟨ra, batch, current⟩ := a
  obtain ⟨rb, batch', current'⟩ := b
  obtain ⟨hreader, rfl, rfl⟩ := h
  cases current with
  | some rec => exact alike_onward (hreader.concluded pathExists rec) rfl rfl
  | none =>
    cases batch with
    | nil => exact ⟨hreader, rfl, rfl⟩
    | cons item rest =>
      cases item with
      | error m => exact alike_onward (hreader.report (.malformed m)) rfl rfl
      | ok rec =>
        obtain ⟨hboth, hmore⟩ := hreader.opened rec
        exact alike_onward hboth rfl hmore

/-- What happens to both leaves them alike. -/
theorem Alike.occur (h : Alike hearsEvents hearsErrors a b) {o : Occurrence} (stays : o.stays = true) :
    Alike hearsEvents hearsErrors (a.occur o) (b.occur o) := by
  have hidle : a.isIdle = b.isIdle := by rw [isIdle, isIdle, h.batch, h.current]
  cases o with
  | work pathExists =>
    rw [Desk.occur, Desk.occur, h.reader.running]
    split
    · exact h.work pathExists
    · exact h
  | read bytes =>
    rw [Desk.occur, Desk.occur, h.reader.running, hidle]
    split
    · exact ⟨h.reader, rfl, h.current⟩
    · exact h
  | fault f =>
    rw [Desk.occur, Desk.occur, h.reader.running, hidle]
    split
    · obtain ⟨hx, hy, halike⟩ := h.reader.report f
      rw [onward, onward, hx, hy]
      split
      · exact ⟨halike, rfl, rfl⟩
      · exact ⟨halike.stop, rfl, rfl⟩
    · exact h
  | called change => exact ⟨h.reader.withTable (by rw [h.reader.table]), h.batch, h.current⟩
  | eventsLeft => cases stays
  | errorsLeft => cases stays

/-- A receiver that goes away in one of them leaves them alike, if it was not to be heard. -/
theorem Alike.leave (h : Alike hearsEvents hearsErrors a b) {o : Occurrence} (leaves : o.stays = false)
    (hevents : o = .eventsLeft → ¬ hearsEvents) (herrors : o = .errorsLeft → ¬ hearsErrors) :
    Alike hearsEvents hearsErrors (a.occur o) b := by
  cases o with
  | eventsLeft =>
    exact ⟨{ h.reader with events := fun hears => absurd hears (hevents rfl) }, h.batch, h.current⟩
  | errorsLeft =>
    exact ⟨{ h.reader with errors := fun hears => absurd hears (herrors rfl) }, h.batch, h.current⟩
  | work _ => cases leaves
  | read _ => cases leaves
  | fault _ => cases leaves
  | called _ => cases leaves

/-- **Two runs**, by induction on what happens. -/
theorem Alike.run (h : Alike hearsEvents hearsErrors a b) (os : List Occurrence)
    (hevents : Occurrence.eventsLeft ∈ os → ¬ hearsEvents)
    (herrors : Occurrence.errorsLeft ∈ os → ¬ hearsErrors) :
    Alike hearsEvents hearsErrors (a.run os) (b.run (os.filter Occurrence.stays)) := by
  induction os generalizing a b with
  | nil => exact h
  | cons o rest ih =>
    have hrest := fun {a b : Desk} (h : Alike hearsEvents hearsErrors a b) =>
      ih h (fun hmem => hevents (List.mem_cons_of_mem o hmem))
        (fun hmem => herrors (List.mem_cons_of_mem o hmem))
    cases hstays : o.stays with
    | true =>
      rw [List.filter_cons_of_pos hstays]
      exact hrest (h.occur hstays)
    | false =>
      rw [List.filter_cons_of_neg (by simp [hstays])]
      refine hrest (h.leave hstays (fun heq => hevents ?_) (fun heq => herrors ?_)) <;>
        exact heq ▸ List.mem_cons_self

/-- What the reader does on its own does not end it. -/
theorem kept_onward {r : Reader} {x : Bool × Reader} (goes : x.1 = true)
    (running : x.2.running = r.running) (unclosed : x.2.closing = false)
    (batch : List (Except Malformation Record)) (current : Option Record) :
    (onward x batch current).reader.running = r.running ∧
      (onward x batch current).reader.closing = false := by
  rw [onward, if_pos goes]
  exact ⟨running, unclosed⟩

theorem kept_work {d : Desk} (unclosed : d.reader.closing = false) (pathExists : Path → Bool) :
    (d.work pathExists).reader.running = d.reader.running ∧
      (d.work pathExists).reader.closing = false := by
  obtain ⟨r, batch, current⟩ := d
  have hkept {x : Bool × Reader} (h : r.Handled x) :=
    kept_onward (h.goes unclosed) h.running (h.closing.trans unclosed)
  cases current with
  | some rec => exact hkept (r.handled_concluded pathExists rec) batch none
  | none =>
    cases batch with
    | nil => exact ⟨rfl, unclosed⟩
    | cons item rest =>
      cases item with
      | ok rec => exact hkept (r.handled_opened rec) rest _
      | error m =>
        have hreport := Reader.report_of_unclosed unclosed (.malformed m)
        simp only [work, hreport]
        exact kept_onward rfl rfl unclosed [] none

/-- A reader goes on, whoever goes away, unless its descriptor is gone. -/
theorem kept_occur {d : Desk} (unclosed : d.reader.closing = false) {o : Occurrence}
    (harmless : ∀ f, o = .fault f → f.isBadDescriptor = false) :
    (d.occur o).reader.running = d.reader.running ∧ (d.occur o).reader.closing = false := by
  cases o with
  | work pathExists =>
    rw [occur]
    split
    · exact kept_work unclosed pathExists
    · exact ⟨rfl, unclosed⟩
  | read bytes =>
    rw [occur]
    split <;> exact ⟨rfl, unclosed⟩
  | fault f =>
    rw [occur]
    split
    · rw [Reader.report_of_unclosed unclosed, harmless f rfl]
      exact kept_onward rfl rfl unclosed [] none
    · exact ⟨rfl, unclosed⟩
  | called change => exact ⟨rfl, unclosed⟩
  | eventsLeft => exact ⟨rfl, unclosed⟩
  | errorsLeft => exact ⟨rfl, unclosed⟩

theorem running_run {d : Desk} (unclosed : d.reader.closing = false) (os : List Occurrence)
    (harmless : ∀ f, .fault f ∈ os → f.isBadDescriptor = false) :
    (d.run os).reader.running = d.reader.running := by
  induction os generalizing d with
  | nil => rfl
  | cons o rest ih =>
    obtain ⟨hrunning, hunclosed⟩ := kept_occur unclosed (o := o)
      fun f heq => harmless f (heq ▸ List.mem_cons_self)
    exact (ih hunclosed fun f hmem => harmless f (List.mem_cons_of_mem o hmem)).trans hrunning

/-- Once the reader has handled the last record of a watch, who waits for it waits no longer. -/
theorem wait_dispatch_of_ignored (pathExists : Path → Bool) (r : Reader) {rec : Record}
    (counts : rec.mask.has Mask.queueOverflow = false) (last : rec.mask.has Mask.ignored = true)
    (p : Path) (timeUp : Bool) :
    (r.dispatch pathExists rec).2.table.wait p rec.handle timeUp = .confirmed := by
  have hdispatch : (r.dispatch pathExists rec).2.table = (r.table.removeHandle rec.handle).2 := by
    unfold Reader.dispatch
    rw [counts, last]
    rfl
  have hnone : (r.table.removeHandle rec.handle).2.resolve? rec.handle = none := by
    unfold WatchTable.removeHandle WatchTable.resolve?
    cases hfind : r.table.byHandle.find? rec.handle with
    | none => exact hfind
    | some q => exact (Dict.find?_erase _ _ _).trans (if_pos BEq.rfl)
  rw [hdispatch, WatchTable.wait, WatchTable.owns, hnone]
  rfl

/-- **Whether somebody listens makes no difference to the rest.**  Take any reader that nobody closes, with
any table and anything in hand, and let anything happen to it: reads of any bytes, faults, calls that
change the table, and receivers that go away at any moment.  It gets to where it would have got if they
had stayed, with the same table and the same work before it.  A stream whose receiver has not gone away
holds the same.  All this is so after every front of what happens as well: the tables are the same after
every step, and a stream is the same up to the moment when its receiver goes away.  The reader has not
ended, unless its descriptor is gone, and it goes on after whatever it does next.  So the last record of
a watch is confirmed to whoever waits for it. -/
theorem listeners_make_no_difference {d : Desk} (unclosed : d.reader.closing = false)
    (os : List Occurrence) :
    let a := d.run os
    let b := d.run (os.filter Occurrence.stays)
    (a.reader.table = b.reader.table ∧ a.reader.drops = b.reader.drops ∧
      a.reader.running = b.reader.running ∧ a.batch = b.batch ∧ a.current = b.current) ∧
    (.eventsLeft ∉ os → a.reader.events = b.reader.events) ∧
    (.errorsLeft ∉ os → a.reader.errors = b.reader.errors) ∧
    ((∀ f, .fault f ∈ os → f.isBadDescriptor = false) → a.reader.running = d.reader.running) ∧
    (∀ f, (a.reader.report f).1 = true) ∧ (∀ e, (a.reader.deliver e).1 = true) ∧
    (∀ pathExists rec, (a.reader.dispatch pathExists rec).1 = true ∧
      (rec.mask.has Mask.queueOverflow = false → rec.mask.has Mask.ignored = true →
        ∀ p timeUp, (a.reader.dispatch pathExists rec).2.table.wait p rec.handle timeUp
          = .confirmed)) ∧
    ∀ pathExists bytes n, a.reader.running = true → a.isIdle = true →
      2 * (Reader.itemsOf bytes).length ≤ n →
        a.run (.read bytes :: List.replicate n (.work pathExists))
          = ⟨a.reader.turn pathExists bytes, [], none⟩ := by
  intro a b
  have halike : Alike (.eventsLeft ∉ os) (.errorsLeft ∉ os) a b :=
    Alike.run ⟨.refl unclosed, rfl, rfl⟩ os (fun hmem hnot => hnot hmem) (fun hmem hnot => hnot hmem)
  have hunclosed : a.reader.closing = false := halike.reader.unclosed
  refine ⟨⟨halike.reader.table, halike.reader.drops, halike.reader.running, halike.batch,
    halike.current⟩, halike.reader.events, halike.reader.errors, running_run unclosed os,
    fun f => ?_, fun e => ?_, fun pathExists rec => ⟨?_, ?_⟩, ?_⟩
  · rw [Reader.report_of_unclosed hunclosed]
  · rw [Reader.deliver_of_unclosed hunclosed]
  · exact (a.reader.handled_dispatch pathExists rec).goes hunclosed
  · exact fun counts last p timeUp => wait_dispatch_of_ignored pathExists a.reader counts last p timeUp
  · intro pathExists bytes n hrunning hidle hn
    obtain ⟨r, batch, current⟩ := a
    rw [isIdle, Bool.and_eq_true, List.isEmpty_iff, Option.isNone_iff_eq_none] at hidle
    obtain ⟨rfl, rfl⟩ := hidle
    exact run_turn pathExists hunclosed hrunning bytes hn

/-- A file is born, and between the two halves of that record the receiver of events goes away; after a
fault the receiver of errors does.  Then come three bytes, and the end of the watch on the inner
directory. -/
def departures : List Occurrence :=
  let works : Occurrence := .work fun _ => true
  let born : Record := ⟨⟨1⟩, Mask.create, 0, some [0x61]⟩
  let last : Record := ⟨⟨2⟩, Mask.ignored, 0, none⟩
  [.read born.kernelBytes, works, .eventsLeft, works, .fault .overflow, .errorsLeft, .read [1, 2, 3],
    works, .read last.kernelBytes, works]

theorem listeners_make_no_difference_departures :
    let d : Desk := ⟨Reader.watchingNested, [], none⟩
    let a := d.run departures
    let b := d.run (departures.filter Occurrence.stays)
    a.reader.table = b.reader.table ∧ a.reader.table.resolve? ⟨2⟩ = none ∧
      a.reader.running = true ∧ a.reader.events = ⟨[], false⟩ ∧ a.reader.errors = ⟨[], false⟩ ∧
      b.reader.events.sent = [⟨⟨[0x2F, 0x74, 0x2F, 0x61]⟩, .create⟩] ∧
      b.reader.errors.sent = [.overflow, .malformed (.shortRead 3)] := by
  have harmless : ∀ f, Occurrence.fault f ∈ departures → f.isBadDescriptor = false := by
    intro f hmem
    simp [departures] at hmem
    rw [hmem]
    rfl
  obtain ⟨⟨htable, -⟩, -, -, hrunning, -⟩ :=
    listeners_make_no_difference (d := ⟨Reader.watchingNested, [], none⟩) rfl departures
  exact ⟨htable, by cbv, hrunning harmless, by cbv, by cbv, by cbv, by cbv⟩

end Desk

end FileWatch
