import FileWatch.Proofs.Event
import FileWatch.Proofs.Shell.Printer
import FileWatch.Shell.Session

/-!
# What the output tells

The printer's lines are values; what the user reads are their texts.  The text of a line tells the line,
as far as a text can (`Line.shown_eq_iff`): of an event its number, its path, and its known operations, of
a failure its message, and which of the two it is.  So the texts tell what the two streams were
(`Printing.streams_of_texts`), and what a command has written tells the events that were printed
(`Outcome.events_of_written`).

A session brings events to its printer in three places, and `Shows` says what all of them brought.  Where
no worker stands in between, that is what the watcher hands out, act by act and when it is closed
(`Outcome.ofCommand_unworked`).
-/

namespace FileWatch

open Text

/-- A text in front of a mark is told by the mark, if it does not hold the mark itself. -/
theorem append_mark_inj {α : Type} {mark : α} {a b s t : List α} (ha : mark ∉ a) (hb : mark ∉ b)
    (h : a ++ mark :: s = b ++ mark :: t) : a = b ∧ s = t := by
  rcases List.append_eq_append_iff.mp h with ⟨c, rfl, hc⟩ | ⟨c, rfl, hc⟩
  · cases c with
    | nil => exact ⟨(List.append_nil a).symm, (List.cons.inj hc).2⟩
    | cons x c =>
      rw [(List.cons.inj hc).1] at hb
      exact (hb (by simp)).elim
  · cases c with
    | nil => exact ⟨List.append_nil b, (List.cons.inj hc).2.symm⟩
    | cons x c =>
      rw [(List.cons.inj hc).1] at ha
      exact (ha (by simp)).elim

/-! ## Lines -/

namespace Line

/-- What a line tells: the number of an event and the event without operations that have no name, or the
message of a failure. -/
def told : Line → (Nat × Event) ⊕ String
  | .event n e => .inl (n, e.known)
  | .failure f => .inr f.message

theorem shown_event (n : Nat) (e : Event) : (Line.event n e).shown =
    "".pushn ' ' (3 - (toString n).length) ++ toString n ++ " " ++ e.shown := rfl

theorem shown_failure (f : Failure) : (Line.failure f).shown = alarm ++ ": " ++ f.message := rfl

theorem isDecimal_of_mem_toString {n : Nat} {c : Char} (h : c ∈ (toString n).toList) :
    Toml.isDecimal c = true := by
  rw [Nat.toString_eq_repr, Nat.toList_repr] at h
  exact Toml.isDecimal_of_mem_toDigits h

/-- A number begins with a digit. -/
theorem toString_eq_cons (n : Nat) :
    ∃ d ds, (toString n).toList = d :: ds ∧ Toml.isDecimal d = true := by
  cases hdigits : (toString n).toList with
  | nil =>
    rw [Nat.toString_eq_repr, Nat.toList_repr] at hdigits
    exact (Nat.toDigits_ne_nil hdigits).elim
  | cons d ds => exact ⟨d, ds, rfl, isDecimal_of_mem_toString (hdigits ▸ List.mem_cons_self)⟩

/-- Behind the blanks of an event's line stands its number. -/
theorem dropWhile_blank_event (n : Nat) (e : Event) :
    (Line.event n e).shown.toList.dropWhile (· == ' ') = (toString n).toList ++ ' ' :: e.shown.toList := by
  have htext : (Line.event n e).shown.toList = List.replicate (3 - (toString n).length) ' ' ++
      ((toString n).toList ++ ' ' :: e.shown.toList) := by
    rw [shown_event, String.toList_append, String.toList_append, String.toList_append,
      Event.toList_pushn]
    simp
  rw [htext, List.dropWhile_append_of_pos fun c hc => beq_iff_eq.mpr (List.eq_of_mem_replicate hc)]
  obtain ⟨d, ds, hdigits, hd⟩ := toString_eq_cons n
  rw [hdigits, List.cons_append]
  apply List.dropWhile_cons_of_neg
  rw [beq_iff_eq]
  rintro rfl
  exact absurd hd (by decide)

theorem event_of_shown {n n' : Nat} {e e' : Event} (h : (Line.event n e).shown = (Line.event n' e').shown) :
    n = n' ∧ e.shown = e'.shown := by
  have hblank : ∀ m : Nat, ' ' ∉ (toString m).toList := fun m hm =>
    absurd (isDecimal_of_mem_toString hm) (by decide)
  have htext := congrArg (fun s => s.toList.dropWhile (· == ' ')) h
  simp only [dropWhile_blank_event] at htext
  obtain ⟨hnumber, hevent⟩ := append_mark_inj (hblank n) (hblank n') htext
  refine ⟨Nat.repr_inj.mp ?_, String.toList_inj.mp hevent⟩
  rw [← Nat.toString_eq_repr, ← Nat.toString_eq_repr]
  exact String.toList_inj.mp hnumber

/-- The line of a failure does not look like that of an event: it begins with a control character. -/
theorem shown_event_ne_failure (n : Nat) (e : Event) (f : Failure) :
    (Line.event n e).shown ≠ (Line.failure f).shown := by
  intro h
  have hfailure : (Line.failure f).shown.toList.dropWhile (· == ' ') =
      '\x1b' :: (alarm.toList.tail ++ ": ".toList ++ f.message.toList) := by
    rw [shown_failure, String.toList_append, String.toList_append]
    rfl
  obtain ⟨d, ds, hdigits, hd⟩ := toString_eq_cons n
  have htext := dropWhile_blank_event n e
  rw [h, hfailure, hdigits, List.cons_append] at htext
  rw [← (List.cons.inj htext).1] at hd
  exact absurd hd (by decide)

theorem shown_failure_eq_iff {f f' : Failure} :
    (Line.failure f).shown = (Line.failure f').shown ↔ f.message = f'.message := by
  rw [shown_failure, shown_failure]
  constructor
  · intro h
    have htext := congrArg String.toList h
    simp only [String.toList_append] at htext
    exact String.toList_inj.mp (List.append_cancel_left htext)
  · intro h
    rw [h]

/-- **The text of a line tells the line**, and nothing that `told` leaves out. -/
theorem shown_eq_iff {l l' : Line} : l.shown = l'.shown ↔ l.told = l'.told := by
  cases l with
  | event n e =>
    cases l' with
    | event n' e' =>
      rw [told, told, Sum.inl.injEq, Prod.mk.injEq]
      constructor
      · intro h
        obtain ⟨hnumber, hevent⟩ := event_of_shown h
        exact ⟨hnumber, (Event.shownBy_eq_iff isSpelled).mp hevent⟩
      · rintro ⟨rfl, hevent⟩
        have hshown : e.shown = e'.shown := (Event.shownBy_eq_iff isSpelled).mpr hevent
        rw [shown_event, shown_event, hshown]
    | failure f => exact iff_of_false (shown_event_ne_failure n e f) nofun
  | failure f =>
    cases l' with
    | event n e => exact iff_of_false (shown_event_ne_failure n e f).symm nofun
    | failure f' => rw [shown_failure_eq_iff, told, told, Sum.inr.injEq]

theorem map_shown_eq_iff {ls ls' : List Line} :
    ls.map Line.shown = ls'.map Line.shown ↔ ls.map told = ls'.map told := by
  induction ls generalizing ls' with
  | nil => cases ls' <;> simp
  | cons l rest ih =>
    cases ls' with
    | nil => simp
    | cons l' rest' => simp only [List.map_cons, List.cons.injEq, shown_eq_iff, ih]

/-- The events that some lines tell of, without their numbers. -/
def toldEvents (told : List ((Nat × Event) ⊕ String)) : List Event :=
  told.filterMap fun t => t.getLeft?.map Prod.snd

theorem toldEvents_map_told (ls : List Line) :
    toldEvents (ls.map told) = ((ls.filterMap event?).map Prod.fst).map Event.known := by
  unfold toldEvents
  rw [List.filterMap_map, List.map_filterMap, List.map_filterMap]
  exact List.filterMap_congr fun l _ => by cases l <;> rfl

theorem filterMap_getRight?_told (ls : List Line) : (ls.map told).filterMap Sum.getRight? =
    (ls.filterMap failure?).map Failure.message := by
  rw [List.filterMap_map, List.map_filterMap]
  exact List.filterMap_congr fun l _ => by cases l <;> rfl

/-- The lines of some events, numbered from one. -/
def numbered (es : List Event) : List Line := (es.zipIdx 1).map fun x => .event x.2 x.1

theorem filterMap_event?_numbered (es : List Event) : (numbered es).filterMap event? = es.zipIdx 1 := by
  unfold numbered
  rw [List.filterMap_map]
  exact List.filterMap_some

/-- Numbered lines have the same texts exactly if their events are the same, apart from operations that
have no name. -/
theorem map_shown_numbered_eq_iff {es es' : List Event} :
    (numbered es).map Line.shown = (numbered es').map Line.shown ↔
      es.map Event.known = es'.map Event.known := by
  rw [map_shown_eq_iff]
  constructor
  · intro h
    have hevents := congrArg toldEvents h
    simpa only [toldEvents_map_told, filterMap_event?_numbered, List.zipIdx_map_fst] using hevents
  · have htold : ∀ es : List Event, (numbered es).map told =
        ((es.map Event.known).zipIdx 1).map fun x => .inl (x.2, x.1) := fun es => by
      unfold numbered
      rw [List.zipIdx_map, List.map_map, List.map_map]
      rfl
    intro h
    rw [htold, htold, h]

/-- Lines of which none is about a failure are told by their events. -/
theorem eq_map_of_no_failure {ls : List Line} (h : ls.filterMap failure? = []) :
    ls = (ls.filterMap event?).map fun x => .event x.2 x.1 := by
  induction ls with
  | nil => rfl
  | cons l rest ih =>
    cases l with
    | event n e => exact congrArg (Line.event n e :: ·) (ih h)
    | failure f => cases h

end Line

/-! ## The texts of two streams -/

namespace Printing

/-- **What was printed tells the streams.**  Two printers that are done, whatever their schedules were and
whatever they wanted, have printed the same texts only if the wanted events and the failures were the
same, one by one: the events up to operations that have no name, the failures up to what their messages
say. -/
theorem streams_of_texts {keep keep' : Event → Bool} {es es' : List Event} {fs fs' : List Failure}
    {turns turns' : List Turn} {s s' : Printing} (h : (start es fs).run keep turns = some s)
    (h' : (start es' fs').run keep' turns' = some s') (done : s.printer.isDone = true)
    (done' : s'.printer.isDone = true)
    (texts : s.printer.lines.map Line.shown = s'.printer.lines.map Line.shown) :
    (es.filter keep).map Event.known = (es'.filter keep').map Event.known ∧
      fs.map Failure.message = fs'.map Failure.message := by
  obtain ⟨-, hevents, hfailures⟩ := ((tracks_start keep es fs).of_run h).1.lines_of_isDone done
  obtain ⟨-, hevents', hfailures'⟩ := ((tracks_start keep' es' fs').of_run h').1.lines_of_isDone done'
  have htold := Line.map_shown_eq_iff.mp texts
  constructor
  · have hknown := congrArg Line.toldEvents htold
    simpa only [Line.toldEvents_map_told, hevents, hevents', List.zipIdx_map_fst] using hknown
  · have hmessages := congrArg (List.filterMap Sum.getRight?) htold
    simpa only [Line.filterMap_getRight?_told, hfailures, hfailures'] using hmessages

end Printing

/-! ## The lines of a session -/

/-- What a watcher hands out while things happen on disk, one after the other, and when it is closed. -/
def Watcher.handsOut (w : Watcher) : List Act → List Event
  | [] => w.close.2.takeEvents.1
  | a :: rest => (w.act a).takeEvents.1 ++ (w.act a).takeEvents.2.handsOut rest

namespace Session

/-- What a session of a command has printed, after some events were brought to its printer. -/
structure Shows (c : Command) (brought : List Event) (s : Session) : Prop where
  command : s.command = c
  prints : s.printer.Prints c.keeps (brought.map Signal.event)

variable {c : Command} {brought : List Event} {s : Session}

/-- No failure is brought, so the lines are those of the wanted events. -/
theorem Shows.lines_eq (shows : s.Shows c brought) :
    s.printer.lines = Line.numbered (brought.filter c.keeps) := by
  have hevents : (brought.map Signal.event).filterMap Signal.event? = brought := by
    rw [List.filterMap_map]
    exact List.filterMap_some
  have hfailures : (brought.map Signal.event).filterMap Signal.failure? = [] := by
    simp [Signal.failure?]
  rw [Line.eq_map_of_no_failure (shows.prints.failures.trans hfailures), shows.prints.events, hevents]
  rfl

theorem prints_foldl {keep : Event → Bool} {heard : List Signal} {p : Printer}
    (prints : p.Prints keep heard) (es : List Event) :
    (es.foldl (fun p e => p.take keep (.event e)) p).Prints keep (heard ++ es.map Signal.event) := by
  induction es generalizing heard p with
  | nil => rwa [List.map_nil, List.append_nil]
  | cons e rest ih =>
    rw [List.map_cons, List.append_cons]
    exact ih (prints.take (.event e))

/-- Nothing but the command and the printer matters. -/
theorem Shows.congr (shows : s.Shows c brought) {s' : Session} (command : s'.command = s.command)
    (printer : s'.printer = s.printer) : s'.Shows c brought :=
  ⟨command.trans shows.command, printer ▸ shows.prints⟩

theorem Shows.print (shows : s.Shows c brought) (es : List Event) :
    (s.print es).Shows c (brought ++ es) := by
  refine ⟨shows.command, ?_⟩
  unfold Session.print
  rw [shows.command, List.map_append]
  exact prints_foldl shows.prints es

theorem Shows.collect (shows : s.Shows c brought) (w : Worker) :
    (s.collect w).Shows c (brought ++ w.output.sent) := by
  have worked : Session.Shows c brought
      { s with worker? := some { w with output := w.output.taken } } := shows.congr rfl rfl
  exact worked.print w.output.sent

/-- Without a worker what the watcher has goes to the printer as it is. -/
theorem relay_of_unworked (unworked : s.worker? = none) : s.relay =
    Session.print { s with watcher := s.watcher.takeEvents.2 } s.watcher.takeEvents.1 := by
  unfold relay
  simp only [unworked]

theorem Shows.relay (shows : s.Shows c brought) : ∃ more, s.relay.Shows c (brought ++ more) := by
  have taken : Session.Shows c brought { s with watcher := s.watcher.takeEvents.2 } :=
    shows.congr rfl rfl
  cases hworker : s.worker? with
  | none =>
    rw [relay_of_unworked hworker]
    exact ⟨_, taken.print _⟩
  | some w =>
    unfold Session.relay
    simp only [hworker]
    rw [hworker] at taken
    exact ⟨_, taken.collect _⟩

theorem Shows.await (shows : s.Shows c brought) (lines deadlines : Nat) :
    ∃ more, (s.await lines deadlines).Shows c (brought ++ more) := by
  induction deadlines generalizing s brought with
  | zero => exact ⟨[], by rwa [List.append_nil]⟩
  | succ n ih =>
    unfold Session.await
    split
    · exact ⟨[], by rwa [List.append_nil]⟩
    split
    · exact ⟨[], by rwa [List.append_nil]⟩
    · rename_i deadline _
      have later : Session.Shows c brought { s with now := max s.now deadline } := shows.congr rfl rfl
      obtain ⟨more, hmore⟩ := later.relay
      obtain ⟨rest, hrest⟩ := ih hmore
      exact ⟨more ++ rest, by rwa [← List.append_assoc]⟩

theorem Shows.act (shows : s.Shows c brought) (a : Act) (lines : Nat) :
    ∃ more, (s.act a lines).Shows c (brought ++ more) := by
  have acted : Session.Shows c brought { s with watcher := s.watcher.act a } := shows.congr rfl rfl
  obtain ⟨more, hmore⟩ := acted.relay
  obtain ⟨rest, hrest⟩ := hmore.await (s.printer.lines.length + lines)
    (Session.relay { s with watcher := s.watcher.act a }).burstsOpen
  exact ⟨more ++ rest, by rwa [← List.append_assoc]⟩

theorem Shows.interrupt (shows : s.Shows c brought) :
    ∃ more, s.interrupt.Shows c (brought ++ more) := by
  have closed : Session.Shows c brought { s with watcher := s.watcher.close.2 } := shows.congr rfl rfl
  obtain ⟨more, hmore⟩ := closed.relay
  unfold Session.interrupt
  cases hworker : (Session.relay { s with watcher := s.watcher.close.2 }).worker? with
  | none =>
    simp only [hworker]
    exact ⟨more, hmore⟩
  | some w =>
    simp only [hworker]
    exact ⟨more ++ (w.finish _).output.sent, by rw [← List.append_assoc]; exact hmore.collect _⟩

/-- **Whatever happens**, all that a session prints are the wanted ones of the events brought to its
printer. -/
theorem Shows.run (shows : s.Shows c brought) (acts : List (Act × Nat)) :
    ∃ more, (acts.foldl (fun s a => s.act a.1 a.2) s).Shows c (brought ++ more) := by
  induction acts generalizing s brought with
  | nil => exact ⟨[], by rwa [List.append_nil]⟩
  | cons a rest ih =>
    obtain ⟨more, hmore⟩ := shows.act a.1 a.2
    obtain ⟨others, hothers⟩ := ih hmore
    exact ⟨more ++ others, by rwa [← List.append_assoc]⟩

/-! ### Without a worker -/

/-- No deadline is waited for, since no write is in progress. -/
theorem act_of_unworked (unworked : s.worker? = none) (a : Act) (lines : Nat) :
    s.act a lines = Session.print { s with watcher := (s.watcher.act a).takeEvents.2 }
      (s.watcher.act a).takeEvents.1 := by
  have hrelay := relay_of_unworked (s := { s with watcher := s.watcher.act a }) unworked
  have hbursts : (Session.relay { s with watcher := s.watcher.act a }).burstsOpen = 0 := by
    rw [hrelay, burstsOpen, Session.print, unworked]
    rfl
  unfold act
  simp only [hbursts]
  exact hrelay

theorem interrupt_of_unworked (unworked : s.worker? = none) :
    s.interrupt = Session.print { s with watcher := s.watcher.close.2.takeEvents.2 }
      s.watcher.close.2.takeEvents.1 := by
  have hrelay := relay_of_unworked (s := { s with watcher := s.watcher.close.2 }) unworked
  have hworker : (Session.relay { s with watcher := s.watcher.close.2 }).worker? = none := by
    rw [hrelay]
    exact unworked
  unfold interrupt
  simp only [hworker]
  exact hrelay

/-- **Without a worker** the printer is brought what the watcher hands out, all of it and in its order. -/
theorem Shows.run_of_unworked (shows : s.Shows c brought) (unworked : s.worker? = none)
    (acts : List (Act × Nat)) :
    (acts.foldl (fun s a => s.act a.1 a.2) s).interrupt.Shows c
      (brought ++ s.watcher.handsOut (acts.map Prod.fst)) := by
  induction acts generalizing s brought with
  | nil =>
    have closed : Session.Shows c brought { s with watcher := s.watcher.close.2.takeEvents.2 } :=
      shows.congr rfl rfl
    rw [List.foldl_nil, interrupt_of_unworked unworked]
    exact closed.print _
  | cons a rest ih =>
    have acted : Session.Shows c brought { s with watcher := (s.watcher.act a.1).takeEvents.2 } :=
      shows.congr rfl rfl
    rw [List.foldl_cons, act_of_unworked unworked, List.map_cons, Watcher.handsOut, ← List.append_assoc]
    exact ih (acted.print _) unworked

/-! ### From the start -/

variable {k : Kernel} {settings : Settings}

theorem shows_of_start (h : start k settings c = .ok s) : s.Shows c [] := by
  unfold start at h
  cases hall : registerAll (.start settings k) c with
  | error r =>
    rw [hall] at h
    cases h
  | ok w =>
    rw [hall] at h
    cases h
    exact ⟨rfl, Printer.prints_fresh _⟩

/-- Only a command that is told to finds out by itself when a write is done. -/
theorem worker?_eq_none_iff (h : start k settings c = .ok s) :
    s.worker? = none ↔ ∀ paths, c ≠ .finishWrite paths true := by
  unfold start at h
  cases hall : registerAll (.start settings k) c with
  | error r =>
    rw [hall] at h
    cases h
  | ok w =>
    rw [hall] at h
    cases h
    cases c with
    | watch paths => simp
    | file files => simp
    | finishWrite paths forced => cases forced <;> simp [completionOf, Watcher.completion,
        Watcher.supports, Worker.ofCompletion?]

end Session

/-! ## What a command has written -/

namespace Outcome

/-- Some lines as one text. -/
def joined (ls : List String) : String := String.join (ls.map (· ++ "\n"))

theorem toList_joined_cons (l : String) (rest : List String) :
    (joined (l :: rest)).toList = l.toList ++ '\n' :: (joined rest).toList := by
  simp [joined, String.toList_join]

/-- Lines that do not break are told by the text that they make. -/
theorem joined_inj {ls ls' : List String} (unbroken : ∀ l ∈ ls, '\n' ∉ l.toList)
    (unbroken' : ∀ l ∈ ls', '\n' ∉ l.toList) (h : joined ls = joined ls') : ls = ls' := by
  have hnil : ∀ (l : String) (rest : List String), joined [] ≠ joined (l :: rest) := by
    intro l rest heq
    have htext := congrArg String.toList heq
    rw [toList_joined_cons] at htext
    exact List.append_ne_nil_of_right_ne_nil _ (List.cons_ne_nil _ _) htext.symm
  induction ls generalizing ls' with
  | nil =>
    cases ls' with
    | nil => rfl
    | cons l' rest' => exact (hnil l' rest' h).elim
  | cons l rest ih =>
    cases ls' with
    | nil => exact (hnil l rest h.symm).elim
    | cons l' rest' =>
      rw [List.forall_mem_cons] at unbroken unbroken'
      have htext := congrArg String.toList h
      rw [toList_joined_cons, toList_joined_cons] at htext
      obtain ⟨hfirst, hrest⟩ := append_mark_inj unbroken.1 unbroken'.1 htext
      rw [String.toList_inj.mp hfirst, ih unbroken.2 unbroken'.2 (String.toList_inj.mp hrest)]

/-- What stands on standard output. -/
def written (o : Outcome) : String := joined o.output

/-- What a command puts out that has printed some events. -/
def lines (es : List Event) : List String := readyLine :: (Line.numbered es).map Line.shown

theorem unbroken_lines {es : List Event} : ∀ l ∈ lines es, '\n' ∉ l.toList := by
  have hready : '\n' ∉ readyLine.toList := by decide
  unfold lines
  rw [List.forall_mem_cons]
  refine ⟨hready, fun l hl hbreak => ?_⟩
  obtain ⟨line, hline, rfl⟩ := List.mem_map.mp hl
  obtain ⟨x, -, rfl⟩ := List.mem_map.mp hline
  exact (Event.staysOnLine_line hbreak).1 rfl

/-- What was written tells the events. -/
theorem known_of_written {o o' : Outcome} {es es' : List Event} (output : o.output = lines es)
    (output' : o'.output = lines es') (h : o.written = o'.written) :
    es.map Event.known = es'.map Event.known := by
  unfold written at h
  rw [output, output'] at h
  have hlines := joined_inj unbroken_lines unbroken_lines h
  exact Line.map_shown_numbered_eq_iff.mp (List.cons.inj hlines).2

section Commands

variable {t : Tree} {c : Command} {settingsFile? : Option Path} {debounceMillis? : Option UInt64}
  {acts : List (Act × Nat)} {settings : Settings} {s : Session}

theorem ofCommand_of_start
    (loaded : Settings.forCommand t settingsFile? debounceMillis? = .ok settings)
    (started : Session.start (.ofTree t) settings c = .ok s) :
    ofCommand t c settingsFile? debounceMillis? acts = ⟨0, readyLine ::
      (acts.foldl (fun s a => s.act a.1 a.2) s).interrupt.printer.lines.map Line.shown, ""⟩ := by
  unfold ofCommand
  rw [loaded]
  simp only [bind, Except.bind, started]

theorem exists_started (ran : (ofCommand t c settingsFile? debounceMillis? acts).exit = 0) :
    ∃ settings s, Settings.forCommand t settingsFile? debounceMillis? = .ok settings ∧
      Session.start (.ofTree t) settings c = .ok s := by
  unfold ofCommand at ran
  cases loaded : Settings.forCommand t settingsFile? debounceMillis? with
  | error r =>
    rw [loaded] at ran
    cases ran
  | ok settings =>
    cases started : Session.start (.ofTree t) settings c with
    | error r =>
      simp only [loaded, bind, Except.bind, started] at ran
      cases ran
    | ok s => exact ⟨settings, s, rfl, started⟩

/-- **A command's output tells what it has printed.**  The command has printed some events, all wanted, one
line for each and numbered from one; and whatever has written the same text of numbered events has printed
the same events, apart from operations that have no name. -/
theorem events_of_written (ran : (ofCommand t c settingsFile? debounceMillis? acts).exit = 0) :
    ∃ es : List Event, (∀ e ∈ es, c.keeps e = true) ∧
      (ofCommand t c settingsFile? debounceMillis? acts).output = lines es ∧
      ∀ (o : Outcome) (es' : List Event), o.output = lines es' →
        o.written = (ofCommand t c settingsFile? debounceMillis? acts).written →
        es'.map Event.known = es.map Event.known := by
  obtain ⟨settings, s, loaded, started⟩ := exists_started ran
  obtain ⟨brought, hbrought⟩ := (Session.shows_of_start started).run acts
  obtain ⟨last, hlast⟩ := hbrought.interrupt
  have houtput : (ofCommand t c settingsFile? debounceMillis? acts).output =
      lines (([] ++ brought ++ last).filter c.keeps) := by
    rw [ofCommand_of_start loaded started, hlast.lines_eq]
    rfl
  refine ⟨_, fun e he => List.of_mem_filter he, houtput, ?_⟩
  intro o es' output' h
  exact known_of_written output' houtput h

/-- **A command that finds out nothing by itself** prints all that it wants of what its watcher hands out,
and nothing else. -/
theorem ofCommand_unworked
    (loaded : Settings.forCommand t settingsFile? debounceMillis? = .ok settings)
    (started : Session.start (.ofTree t) settings c = .ok s)
    (unforced : ∀ paths, c ≠ .finishWrite paths true) :
    ofCommand t c settingsFile? debounceMillis? acts =
      ⟨0, lines ((s.watcher.handsOut (acts.map Prod.fst)).filter c.keeps), ""⟩ := by
  have unworked := (Session.worker?_eq_none_iff started).mpr unforced
  have shows := (Session.shows_of_start started).run_of_unworked unworked acts
  rw [ofCommand_of_start loaded started, shows.lines_eq]
  rfl

end Commands

-- The working directory is watched, and a file in it is made and removed again.
example : (Session.start (.ofTree .fresh) .default (.watch [⟨[dot]⟩])).map (fun s =>
      s.watcher.handsOut [.create ⟨[0x61]⟩ [], .unlink ⟨[0x61]⟩])
    = .ok [⟨⟨[0x2E, 0x2F, 0x61]⟩, .create⟩, ⟨⟨[0x2E, 0x2F, 0x61]⟩, .remove⟩] := by cbv

end Outcome

end FileWatch
