import FileWatch.Proofs.WatchTable.Pairing
import FileWatch.Reader

/-!
# What the reader makes of a stream of records

The reader handles records one by one, and the table it reads them in changes under its hands.  Here
is the same without a reader: from which table a record is read, what it announces there, what it
reports, and what it asks of the kernel.

* `Record.failure?` and `Record.dropped?` need no table at all.
* `Announces` is the condition under which a record becomes an event, and the event.  It looks at
  the table twice, for the path of the handle and for the directory above.
* The table a record is read in is the first one, `without` the handles that the records before it
  have invalidated.

`dispatchAll_announces` says that the reader does just that.  It is an induction on the stream, one
step of which is `Serving.dispatch`: one record adds to each stream of output at its end and takes
at most one handle out of the table, and steps of that form compose (`after_after`).
-/

namespace FileWatch

namespace Record

/-- What a record reports.  Lost records are reported whatever else the record says; a watch that
cannot be dropped is reported when the watched thing itself has moved and the descriptor is gone. -/
def failure? (descriptorOpen : Bool) (r : Record) : Option Failure :=
  if r.mask.has Mask.queueOverflow then some .overflow
  else if r.mask.has Mask.ignored then none
  else if r.mask.has Mask.moveSelf && r.name.isNone && !descriptorOpen then some .closed
  else none

/-- The watch that the kernel is asked to drop because of a record. -/
def dropped? (descriptorOpen : Bool) (r : Record) : Option Handle :=
  if r.mask.has Mask.queueOverflow || r.mask.has Mask.ignored then none
  else if r.mask.has Mask.moveSelf && r.name.isNone && descriptorOpen then some r.handle
  else none

/-- The handle that a record invalidates. -/
def invalidated? (r : Record) : Option Handle :=
  if r.mask.has Mask.ignored && !r.mask.has Mask.queueOverflow then some r.handle else none

/-- What a record is about, under the watched path. -/
def subject (r : Record) (watched : Path) : Path :=
  match r.name with
  | some name => watched.join name
  | none => watched

end Record

/-- The handles that some records invalidate. -/
def invalidated (rs : List Record) : List Handle := rs.filterMap Record.invalidated?

theorem filterMap_cons_eq_append {α β : Type} (f : α → Option β) (a : α) (l : List α) :
    (a :: l).filterMap f = (f a).toList ++ l.filterMap f := by
  rw [List.filterMap_cons]
  cases f a <;> rfl

theorem invalidated_cons (r : Record) (rs : List Record) :
    invalidated (r :: rs) = r.invalidated?.toList ++ invalidated rs :=
  filterMap_cons_eq_append Record.invalidated? r rs

/-- A record, read in a table, announces an event. -/
inductive Announces (pathExists : Path → Bool) (t : WatchTable) (r : Record) : Event → Prop
  /-- The watch is known, the record says something, the directory above does not say the same, and
  the path is there unless the record says that it is not. -/
  | intro (watched : Path)
      (counts : r.mask.has Mask.queueOverflow = false)
      (lives : r.mask.has Mask.ignored = false)
      (resolves : t.resolve? r.handle = some watched)
      (tells : r.mask.ops.isEmpty = false)
      (unreported : ¬ (r.mask.has Mask.deleteSelf = true ∧ ∃ above w,
        watched.parent? = some above ∧ t.entry? above = some w ∧ w.flags.has Mask.delete = true))
      (fresh : r.mask.ops.intersects (.remove ∪ .rename) = true ∨
        pathExists (r.subject watched) = true) :
      Announces pathExists t r ⟨r.subject watched, r.mask.ops⟩

/-! ## The condition, on a handle that is known -/

section Known

variable {pathExists : Path → Bool} {t : WatchTable} {r : Record} {watched : Path}

theorem parentReportsDelete_iff (hres : t.resolve? r.handle = some watched) :
    t.parentReportsDelete r.handle = true ↔ ∃ above w, watched.parent? = some above ∧
      t.entry? above = some w ∧ w.flags.has Mask.delete = true := by
  unfold WatchTable.parentReportsDelete
  rw [hres, Option.bind_some]
  cases watched.parent? with
  | none => simp
  | some above =>
    rw [Option.bind_some]
    cases hentry : t.entry? above with
    | none => simp [hentry]
    | some w => simp [hentry]

theorem event?_eq (hres : t.resolve? r.handle = some watched) :
    r.event? t = if r.mask.ops.isEmpty then none else some ⟨r.subject watched, r.mask.ops⟩ := by
  unfold Record.event?
  rw [hres]
  rfl

theorem announces_iff (hover : r.mask.has Mask.queueOverflow = false)
    (hignored : r.mask.has Mask.ignored = false) (hres : t.resolve? r.handle = some watched)
    (e : Event) :
    Announces pathExists t r e ↔
      (r.mask.ops.isEmpty = false ∧
        (r.mask.has Mask.deleteSelf && t.parentReportsDelete r.handle) = false ∧
        (⟨r.subject watched, r.mask.ops⟩ : Event).isStale pathExists = false) ∧
      e = ⟨r.subject watched, r.mask.ops⟩ := by
  have hunreported : (r.mask.has Mask.deleteSelf && t.parentReportsDelete r.handle) = false ↔
      ¬ (r.mask.has Mask.deleteSelf = true ∧ ∃ above w, watched.parent? = some above ∧
        t.entry? above = some w ∧ w.flags.has Mask.delete = true) := by
    rw [← parentReportsDelete_iff hres, ← Bool.and_eq_true, Bool.not_eq_true]
  have hfresh : (⟨r.subject watched, r.mask.ops⟩ : Event).isStale pathExists = false ↔
      r.mask.ops.intersects (.remove ∪ .rename) = true ∨
        pathExists (r.subject watched) = true := by
    unfold Event.isStale
    cases r.mask.ops.intersects (.remove ∪ .rename) <;> simp
  rw [hunreported, hfresh]
  constructor
  · rintro ⟨watched', -, -, hres', htells, hun, hfr⟩
    rw [hres, Option.some.injEq] at hres'
    subst hres'
    exact ⟨⟨htells, hun, hfr⟩, rfl⟩
  · rintro ⟨⟨htells, hun, hfr⟩, rfl⟩
    exact .intro watched hover hignored hres htells hun hfr

end Known

namespace Reader

/-- A reader whose table keeps its promise, that both its streams are listened to, and that was not
told to close. -/
structure Serving (s : Reader) : Prop where
  paired : s.table.Paired
  events_listening : s.events.listening = true
  errors_listening : s.errors.listening = true
  not_closing : s.closing = false

/-- A reader after it has lost some handles and has added to its streams. -/
def after (s : Reader) (gone : List Handle) (es : List Event) (fs : List Failure)
    (ds : List Handle) : Reader :=
  { s with
    table := s.table.without gone
    events := { s.events with sent := s.events.sent ++ es }
    errors := { s.errors with sent := s.errors.sent ++ fs }
    drops := s.drops ++ ds }

theorem after_nil (s : Reader) : s.after [] [] [] [] = s := by
  simp [after]

theorem after_after (s : Reader) (g g' : List Handle) (es es' : List Event)
    (fs fs' : List Failure) (ds ds' : List Handle) :
    (s.after g es fs ds).after g' es' fs' ds'
      = s.after (g ++ g') (es ++ es') (fs ++ fs') (ds ++ ds') := by
  simp [after, WatchTable.without_without]

namespace Serving

variable {s : Reader}

theorem after (serving : s.Serving) (g : List Handle) (es : List Event) (fs : List Failure)
    (ds : List Handle) : (s.after g es fs ds).Serving :=
  ⟨serving.paired.without g, serving.events_listening, serving.errors_listening,
    serving.not_closing⟩

theorem deliver (serving : s.Serving) (e : Event) : s.deliver e = (true, s.after [] [e] [] []) := by
  unfold Reader.deliver Outlet.send
  simp [serving.not_closing, serving.events_listening, Reader.after]

theorem report (serving : s.Serving) (f : Failure) : s.report f = (true, s.after [] [] [f] []) := by
  unfold Reader.report Outlet.send
  simp [serving.not_closing, serving.errors_listening, Reader.after]

theorem drop (serving : s.Serving) (h : Handle) :
    s.drop h = (true, if s.descriptorOpen then s.after [] [] [] [h]
      else s.after [] [] [.closed] []) := by
  unfold Reader.drop
  split
  · simp [Reader.after]
  · exact serving.report .closed

/-- The last stage of a record that counts and whose watch lives: it is announced, or nothing
happens. -/
theorem announce (serving : s.Serving) (pathExists : Path → Bool) {r : Record}
    (hover : r.mask.has Mask.queueOverflow = false) (hignored : r.mask.has Mask.ignored = false) :
    ∃ said : Option Event, (∀ e, said = some e ↔ Announces pathExists s.table r e) ∧
      (if r.mask.has Mask.deleteSelf && s.table.parentReportsDelete r.handle then (true, s)
        else s.announce pathExists r) = (true, s.after [] said.toList [] []) := by
  cases hres : s.table.resolve? r.handle with
  | none =>
    refine ⟨none, fun e => ⟨nofun, ?_⟩, ?_⟩
    · rintro ⟨watched, -, -, hres', -, -, -⟩
      rw [hres] at hres'
      cases hres'
    · have hevent : r.event? s.table = none := by
        unfold Record.event?
        rw [hres]
      rw [Reader.announce, hevent, Option.toList_none, after_nil, ite_self]
  | some watched =>
    refine ⟨if r.mask.ops.isEmpty = false ∧
        (r.mask.has Mask.deleteSelf && s.table.parentReportsDelete r.handle) = false ∧
        (⟨r.subject watched, r.mask.ops⟩ : Event).isStale pathExists = false
      then some ⟨r.subject watched, r.mask.ops⟩ else none, fun e => ?_, ?_⟩
    · rw [announces_iff hover hignored hres]
      split
      · rename_i hall
        simp only [Option.some.injEq, hall, and_self, true_and, eq_comm]
      · rename_i hall
        simp only [hall, false_and, reduceCtorEq]
    · rw [Reader.announce, event?_eq hres]
      cases hdelete : r.mask.has Mask.deleteSelf && s.table.parentReportsDelete r.handle with
      | true => simp [after_nil]
      | false =>
        cases htells : r.mask.ops.isEmpty with
        | true => simp [after_nil]
        | false =>
          cases hstale : (⟨r.subject watched, r.mask.ops⟩ : Event).isStale pathExists with
          | true => simp [hstale, after_nil]
          | false => simp [hstale, serving.deliver]

/-- **One record.**  It is handled, and the reader goes on; what it adds to the streams and which
handle it takes away are what the definitions above say. -/
theorem dispatch (serving : s.Serving) (pathExists : Path → Bool) (r : Record) :
    ∃ said : Option Event, (∀ e, said = some e ↔ Announces pathExists s.table r e) ∧
      s.dispatch pathExists r = (true, s.after r.invalidated?.toList said.toList
        (r.failure? s.descriptorOpen).toList (r.dropped? s.descriptorOpen).toList) := by
  unfold Reader.dispatch Record.invalidated? Record.failure? Record.dropped?
  cases hover : r.mask.has Mask.queueOverflow with
  | true =>
    refine ⟨none, fun e => ⟨nofun, ?_⟩, ?_⟩
    · rintro ⟨-, hcounts, -, -, -, -, -⟩
      rw [hover] at hcounts
      cases hcounts
    · simp [serving.report]
  | false =>
    cases hignored : r.mask.has Mask.ignored with
    | true =>
      refine ⟨none, fun e => ⟨nofun, ?_⟩, ?_⟩
      · rintro ⟨-, -, hlives, -, -, -, -⟩
        rw [hignored] at hlives
        cases hlives
      · simp [WatchTable.purge, serving.paired.removeHandle_eq, Reader.after]
    | false =>
      -- What the move of the watched thing adds comes first; it does not touch the table.
      have hmoved : (if r.mask.has Mask.moveSelf && r.name.isNone then s.drop r.handle else (true, s))
          = (true, s.after [] [] (r.failure? s.descriptorOpen).toList
              (r.dropped? s.descriptorOpen).toList) := by
        unfold Record.failure? Record.dropped?
        rw [serving.drop]
        cases r.mask.has Mask.moveSelf && r.name.isNone <;> cases s.descriptorOpen <;>
          simp [hover, hignored, after_nil]
      have hserving := serving.after [] [] (r.failure? s.descriptorOpen).toList
        (r.dropped? s.descriptorOpen).toList
      obtain ⟨said, hsaid, hrest⟩ := hserving.announce pathExists hover hignored
      have htable : ∀ es fs ds, (s.after [] es fs ds).table = s.table :=
        fun _ _ _ => s.table.without_nil
      refine ⟨said, fun e => by rw [hsaid, htable], ?_⟩
      rw [hmoved]
      simp only [Bool.false_eq_true, if_false, Bool.not_true, Bool.false_and, Bool.or_self]
      rw [hrest, after_after]
      simp [Record.failure?, Record.dropped?, hover, hignored]

end Serving

/-- **The reader announces what the records announce.**  A reader that serves handles any stream of
records to its end.  Behind what its streams held before stand the events that the records announce,
each in the table that the records before it have left, and the failures that they report; the
table has lost the handles that they invalidate, and nothing else has changed. -/
theorem dispatchAll_announces (pathExists : Path → Bool) {s : Reader} (serving : s.Serving)
    (rs : List Record) :
    ∃ said : List (Option Event), said.length = rs.length ∧
      (∀ i (hi : i < rs.length) e, said[i]? = some (some e) ↔
        Announces pathExists (s.table.without (invalidated (rs.take i))) rs[i] e) ∧
      s.dispatchAll pathExists (rs.map .ok) = (true, { s with
        table := s.table.without (invalidated rs)
        events := { s.events with sent := s.events.sent ++ said.filterMap id }
        errors := { s.errors with
          sent := s.errors.sent ++ rs.filterMap (Record.failure? s.descriptorOpen) }
        drops := s.drops ++ rs.filterMap (Record.dropped? s.descriptorOpen) }) := by
  -- By induction on the stream.  What a reader has done to itself is `after`, and that composes.
  induction rs generalizing s with
  | nil => exact ⟨[], rfl, nofun, congrArg (Prod.mk true) s.after_nil.symm⟩
  | cons r rest ih =>
    obtain ⟨said, hsaid, hstep⟩ := serving.dispatch pathExists r
    have hnext := serving.after r.invalidated?.toList said.toList
      (r.failure? s.descriptorOpen).toList (r.dropped? s.descriptorOpen).toList
    obtain ⟨saids, hlength, hsaids, hrest⟩ := ih hnext
    refine ⟨said :: saids, by rw [List.length_cons, List.length_cons, hlength], ?_, ?_⟩
    · intro i hi e
      cases i with
      | zero =>
        simp only [List.getElem?_cons_zero, Option.some.injEq, List.take_zero, List.getElem_cons_zero]
        rw [hsaid, show invalidated [] = [] from rfl, WatchTable.without_nil]
      | succ i =>
        -- The table that the rest starts with has lost what the first record invalidates.
        simp only [List.getElem?_cons_succ, List.take_succ_cons, List.getElem_cons_succ]
        rw [hsaids i (by simpa using hi), invalidated_cons, ← WatchTable.without_without]
        rfl
    · show _ = (true, s.after (invalidated (r :: rest)) ((said :: saids).filterMap id)
        ((r :: rest).filterMap (Record.failure? s.descriptorOpen))
        ((r :: rest).filterMap (Record.dropped? s.descriptorOpen)))
      rw [List.map_cons, Reader.dispatchAll, hstep, invalidated_cons, filterMap_cons_eq_append,
        filterMap_cons_eq_append, filterMap_cons_eq_append, ← after_after]
      exact hrest

/-- A reader that watches a directory `/t` and `/t/s` in it, each for what every platform reports. -/
def watchingNested : Reader :=
  { fresh with
    table := (WatchTable.empty.insert ⟨[0x2F, 0x74]⟩ ⟨⟨1⟩, Mask.request .portable⟩).insert
      ⟨[0x2F, 0x74, 0x2F, 0x73]⟩ ⟨⟨2⟩, Mask.request .portable⟩ }

/-- The removal of the inner directory, as told by its own watch, by that of the directory above, and
by the end of its watch. -/
def innerRemoval : List Record :=
  [⟨⟨2⟩, Mask.deleteSelf, 0, none⟩, ⟨⟨1⟩, Mask.delete ||| Mask.isDirectory, 0, some [0x73]⟩,
    ⟨⟨2⟩, Mask.ignored, 0, none⟩]

theorem dispatchAll_announces_innerRemoval :
    watchingNested.Serving ∧
      ∃ said : List (Option Event), said.length = innerRemoval.length ∧
        (∀ i (hi : i < innerRemoval.length) e, said[i]? = some (some e) ↔
          Announces (fun _ => false)
            (watchingNested.table.without (invalidated (innerRemoval.take i))) innerRemoval[i] e) ∧
        watchingNested.dispatchAll (fun _ => false) (innerRemoval.map .ok)
          = (true, { watchingNested with
            table := watchingNested.table.without (invalidated innerRemoval)
            events := { watchingNested.events with
              sent := watchingNested.events.sent ++ said.filterMap id }
            errors := { watchingNested.errors with
              sent := watchingNested.errors.sent ++
                innerRemoval.filterMap (Record.failure? watchingNested.descriptorOpen) }
            drops := watchingNested.drops ++
              innerRemoval.filterMap (Record.dropped? watchingNested.descriptorOpen) }) := by
  have serving : watchingNested.Serving :=
    ⟨(WatchTable.paired_empty.insert _ _).insert _ _, rfl, rfl, rfl⟩
  exact ⟨serving, dispatchAll_announces (fun _ => false) serving innerRemoval⟩

/-- The removal is announced once. -/
example : (watchingNested.dispatchAll (fun _ => false) (innerRemoval.map .ok)).2.events.sent
    = [⟨⟨[0x2F, 0x74, 0x2F, 0x73]⟩, .remove⟩] := by decide

end Reader

end FileWatch
